import TtLive.Invariance
import TtLive.Cursor

/-!
# The poll loop moves its position together with the delivery of the batch

`PollLog` is read off a trace: the batches fetched so far, the messages dispatched, and whether a `LiveEnd`
was emitted. The monitor `poll_monitor` demands that every request stands at the position of the fetched
batches, all of them delivered. The invariant of the loop is that its three variables are that position.
The flags may change at any time: nothing is assumed about the answers to the loads.
-/

namespace TtLive
open Prog Monitor

structure PollLog where
  batches : List ProtoMessageFetchResult := []
  dispatched : List BaseProtoMessage := []
  ended : Bool := false

namespace PollLog

def next (g : PollLog) : (a : Act) → Resp a → PollLog
  | .mark (.fetched (.ok batch)), _ => { g with batches := g.batches ++ [batch] }
  | .mark (.dispatch_message msg), _ => { g with dispatched := g.dispatched ++ [msg] }
  | .mark (.emit ev), _ => { g with ended := g.ended || decide (ev.type = .LiveEnd) }
  | _, _ => g

/-- What a trace shows. -/
def of (tr : List (Ev Resp)) : PollLog := after next {} tr

/-- The messages of the fetched batches, in order. -/
def fetched (g : PollLog) : List BaseProtoMessage := g.batches.flatMap (·.messages)

end PollLog

variable (initial : ProtoMessageFetchResult)

/-- What the poll loop may do when the trace so far shows `g`. -/
def PollLog.Allows (g : PollLog) : Act → Prop
  | .mark (.poll_round cursor internal_ext interval_ms) =>
    Poll.at (initial :: g.batches) = ⟨cursor, internal_ext, interval_ms⟩
  | .mark (.fetch_once cursor internal_ext) =>
    cursor = (Poll.at (initial :: g.batches)).cursor ∧
      internal_ext = (Poll.at (initial :: g.batches)).internal_ext ∧
      g.dispatched = g.fetched ∧ g.ended = false
  | .net_begin (.sign url) =>
    url.params.param (lit "cursor") = some (Poll.at (initial :: g.batches)).cursor ∧
      url.params.param (lit "internal_ext") = some (Poll.at (initial :: g.batches)).internal_ext
  | .mark (.dispatch_message msg) => ∃ rest, g.dispatched ++ msg :: rest = g.fetched
  | _ => True

abbrev poll_monitor : Monitor Act Resp PollLog := det (PollLog.Allows initial) PollLog.next

variable {initial : ProtoMessageFetchResult} {cfg : Config}

theorem poll_monitor_quiet (a : Act) (h : a.quiet) : Silent (poll_monitor initial) a := by
  intro g
  cases a <;> first | exact ⟨trivial, fun _ _ h => h⟩ | cases h | skip
  next op => cases op <;> first | exact ⟨trivial, fun _ _ h => h⟩ | cases h

/-- A batch is dispatched message by message; the result tells whether a `LiveEnd` was among them. -/
theorem wp_process_batch {batch : ProtoMessageFetchResult} {g : PollLog} (hended : g.ended = false)
    (hrest : g.dispatched ++ batch.messages = g.fetched) :
    wp (poll_monitor initial) (process_fetch_result cfg batch)
      (fun ended g' => g'.batches = g.batches ∧ g'.dispatched = g.fetched ∧ g'.ended = ended) g := by
  refine wp_mono (wp_foldlM (fun rest ended g' => g'.batches = g.batches ∧
    g'.dispatched ++ rest = g.fetched ∧ g'.ended = ended) ?_ ⟨rfl, hrest, hended⟩) fun ended g' h => ?_
  · rintro msg rest ended g' ⟨hb, hd, he⟩
    refine wp_bind.2 (wp_dispatch_message poll_monitor_quiet ⟨⟨rest, ?_⟩, ?_⟩)
    · rw [hd, PollLog.fetched, PollLog.fetched, hb]
    · rintro - g₁ rfl
      refine ⟨⟨hb, by simpa [PollLog.next] using hd, he⟩, trivial, ?_⟩
      rintro - g₂ rfl
      by_cases hlive : (message_event cfg msg).type = .LiveEnd <;>
        simp [PollLog.next, hlive, hb, he, ← hd]
  · exact ⟨h.1, by simpa using h.2.1, h.2.2⟩

/-- The invariant of the loop: its variables are the position of the fetched batches, which are delivered. -/
structure PollInv (initial : ProtoMessageFetchResult) (s : Poll) (g : PollLog) : Prop where
  position : s = Poll.at (initial :: g.batches)
  delivered : g.dispatched = g.fetched
  ended : g.ended = false

theorem wp_poll_fetch {s : Poll} {g : PollLog} (h : PollInv initial s g) :
    wp (poll_monitor initial) (fetch_once cfg s.cursor s.internal_ext)
      (orThrow (fun batch g' => wp (poll_monitor initial) (process_fetch_result cfg batch)
        (fun ended g' => if ended then g'.dispatched = g'.fetched else PollInv initial (s.advance batch) g') g')
        (fun _ g' => PollInv initial s g')) g := by
  refine wp_fetch_once poll_monitor_quiet (PollInv initial s) ?_ ?_ ?_
  · refine ⟨⟨?_, ?_, h.delivered, h.ended⟩, ?_⟩
    · rw [h.position]
    · rw [h.position]
    · rintro - g₁ rfl; exact h
  · refine fun room_id g₁ h₁ => wp_perform_bind.2 ⟨⟨?_, ?_⟩, ?_⟩
    · rw [fetch_url_cursor, h₁.position]
    · rw [fetch_url_internal_ext, h₁.position]
    · rintro - g₂ rfl
      exact keeps_quiet poll_monitor_quiet (.net_end _) rfl _ h₁
  · intro r g₁ h₁
    refine ⟨trivial, ?_⟩
    rintro - g₂ rfl
    cases r with
    | error e => exact h₁
    | ok batch =>
      refine wp_mono (wp_process_batch h₁.ended ?_) fun ended g₂ h₂ => ?_
      · simp [PollLog.next, PollLog.fetched, h₁.delivered]
      · obtain ⟨hb, hd, he⟩ := h₂
        have hd : g₂.dispatched = g₂.fetched := by rw [hd, PollLog.fetched, PollLog.fetched, hb]
        cases ended with
        | true => exact hd
        | false =>
          refine ⟨?_, hd, he⟩
          rw [hb, h₁.position]
          exact (Poll.at_snoc (initial :: g₁.batches) batch).symm

theorem wp_poll_loop :
    wp (poll_monitor initial) (poll_loop cfg initial) (fun _ g => g.dispatched = g.fetched) {} := by
  refine wp_poll_rounds poll_monitor_quiet (PollInv initial) (fun s g h => h.delivered) ⟨trivial, ?_⟩ ?_ ?_
  · rintro - g rfl
    exact ⟨(Poll.at_single initial).symm, rfl, rfl⟩
  · intro s g h
    refine ⟨h.position.symm, ?_⟩
    rintro - g₁ rfl
    exact h
  · exact fun s g h => wp_poll_fetch h

/-! ### Runs -/

variable {tr : List (Ev Resp)} {q : Code Unit}

theorem PollLog.of_snoc (tr : List (Ev Resp)) (e : Ev Resp) : of (tr ++ [e]) = next (of tr) e.1 e.2 := by
  rw [of, after, List.foldl_append]; rfl

/-- At every moment the dispatched messages are the first of the fetched ones. -/
theorem poll_loop_dispatched_le (h : Runs (poll_loop cfg initial) tr q) {pre post : List (Ev Resp)}
    (htr : tr = pre ++ post) : (PollLog.of pre).dispatched <+: (PollLog.of pre).fetched := by
  induction pre using List.reverseRecOn generalizing post with
  | nil => exact List.prefix_rfl
  | append_singleton pre e ih =>
    obtain ⟨a, r⟩ := e
    rw [List.append_assoc, List.singleton_append] at htr
    have hih := ih htr
    subst htr
    have hok := ok_of_runs wp_poll_loop h
    rw [PollLog.of_snoc]
    cases a with
    | mark m =>
      cases m with
      | fetched res =>
        cases res with
        | error e => exact hih
        | ok batch =>
          refine hih.trans ⟨batch.messages, ?_⟩
          simp [PollLog.fetched, PollLog.next]
      | dispatch_message msg =>
        obtain ⟨rest, hrest⟩ := hok
        exact ⟨rest, (List.append_cons _ _ _).symm.trans hrest⟩
      | _ => exact hih
    | _ => exact hih

/-- The position advances only together with the delivery of a batch. -/
theorem poll_loop_in_step (h : Runs (poll_loop cfg initial) tr q) :
    (PollLog.of tr).dispatched <+: (PollLog.of tr).fetched ∧
    (q = ret () → (PollLog.of tr).dispatched = (PollLog.of tr).fetched) ∧
    (∀ pre post cursor internal_ext, tr = pre ++ ⟨.mark (.fetch_once cursor internal_ext), ()⟩ :: post →
      cursor = (Poll.at (initial :: (PollLog.of pre).batches)).cursor ∧
      internal_ext = (Poll.at (initial :: (PollLog.of pre).batches)).internal_ext ∧
      (PollLog.of pre).dispatched = (PollLog.of pre).fetched ∧ (PollLog.of pre).ended = false) ∧
    (∀ pre post url, tr = pre ++ ⟨.net_begin (.sign url), ()⟩ :: post →
      url.params.param (lit "cursor") = some (Poll.at (initial :: (PollLog.of pre).batches)).cursor ∧
      url.params.param (lit "internal_ext") =
        some (Poll.at (initial :: (PollLog.of pre).batches)).internal_ext) ∧
    (∀ pre post cursor internal_ext interval_ms,
      tr = pre ++ ⟨.mark (.poll_round cursor internal_ext interval_ms), ()⟩ :: post →
      Poll.at (initial :: (PollLog.of pre).batches) = ⟨cursor, internal_ext, interval_ms⟩ ∧ 0 < interval_ms) := by
  refine ⟨poll_loop_dispatched_le h (List.append_nil tr).symm, ?_, ?_, ?_, ?_⟩
  · rintro rfl
    exact post_of_runs wp_poll_loop h
  · rintro pre post cursor internal_ext rfl
    exact ok_of_runs wp_poll_loop h
  · rintro pre post url rfl
    exact ok_of_runs wp_poll_loop h
  · rintro pre post cursor internal_ext interval_ms rfl
    have hat : Poll.at (initial :: (PollLog.of pre).batches) = _ := ok_of_runs wp_poll_loop h
    refine ⟨hat, ?_⟩
    have := Poll.at_interval_pos (initial :: (PollLog.of pre).batches)
    rwa [hat] at this

/-- A run of two rounds. -/
theorem poll_loop_two_rounds :
    let run := exec (List.replicate 60 (sample_answer (sample_batch [1] (lit "B")).1 (.Closed, [])))
      (poll_loop (sample_config {}) { cursor := lit "A", fetch_interval := 100 })
    (PollLog.of run.1).batches.length = 2 ∧ (PollLog.of run.1).dispatched.length = 1 ∧
      (PollLog.of run.1).dispatched <+: (PollLog.of run.1).fetched :=
  ⟨by decide, by decide, (poll_loop_in_step (runs_exec _ _)).1⟩

end TtLive
