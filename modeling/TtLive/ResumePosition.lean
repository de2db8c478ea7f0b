import TtLive.Invariance
import TtLive.Cursor

/-!
# The resume position of the WebSocket path

`PathLog` is read off a trace of `transport`: the last non-empty `cursor` and `internal_ext` received on
this path, starting with the initial fetch. `Carries` says that a signed URL carries both. The reconnect
loop replaces its whole fetch result where the poll loop keeps a value that the batch leaves empty, and the
hand-over to the poll loop passes the initial result; `regular` is the condition under which the position
survives both.
-/

namespace TtLive
open Prog

structure PathLog where
  cursor : Bytes
  internal_ext : Bytes
  polling : Bool := false

namespace PathLog

def next (g : PathLog) : (a : Act) → Resp a → PathLog
  | .mark (.fetched (.ok batch)), _ =>
    { g with
      cursor := if batch.cursor ≠ [] then batch.cursor else g.cursor
      internal_ext := if batch.internal_ext ≠ [] then batch.internal_ext else g.internal_ext }
  | .mark (.poll_loop _), _ => { g with polling := true }
  | _, _ => g

def init (initial : ProtoMessageFetchResult) : PathLog :=
  { cursor := initial.cursor, internal_ext := initial.internal_ext }

/-- What a trace shows. -/
def of (initial : ProtoMessageFetchResult) (tr : List (Ev Resp)) : PathLog :=
  Monitor.after next (init initial) tr

/-- The URL carries the last non-empty values received. -/
structure Carries (g : PathLog) (url : UnsignedUrl) : Prop where
  cursor : g.cursor ≠ [] → url.params.param (lit "cursor") = some g.cursor
  internal_ext : g.internal_ext ≠ [] → url.params.param (lit "internal_ext") = some g.internal_ext

/-- A refresh on the reconnect path leaves nothing empty that was not empty before, and the poll loop starts
from the values received last. -/
def regular (g : PathLog) : Act → Bool
  | .mark (.fetched (.ok batch)) =>
    g.polling || ((batch.cursor ≠ [] || g.cursor = []) && (batch.internal_ext ≠ [] || g.internal_ext = []))
  | .mark (.poll_loop initial) => initial.cursor = g.cursor && initial.internal_ext = g.internal_ext
  | _ => true

def Allows (g : PathLog) : Act → Prop
  | .net_begin (.sign url) => g.Carries url
  | _ => True

end PathLog

open PathLog

abbrev path_monitor : Monitor Act Resp PathLog := .assume (fun g a _ => g.regular a) (.det Allows next)

variable {cfg : Config} {initial : ProtoMessageFetchResult}

theorem path_monitor_quiet (a : Act) (h : a.quiet) : Silent path_monitor a := by
  intro g
  cases a <;> first | exact ⟨trivial, fun _ _ h => h.2⟩ | cases h | skip
  next op => cases op <;> first | exact ⟨trivial, fun _ _ h => h.2⟩ | cases h

theorem carries_fetch_url {g : PathLog} {room_id : Int} :
    g.Carries (fetch_url room_id g.cursor g.internal_ext) :=
  ⟨fun _ => fetch_url_cursor .., fun _ => fetch_url_internal_ext ..⟩

theorem carries_ws_url {g : PathLog} {host : Bytes} {room_id : Int} :
    g.Carries (ws_url host room_id g.cursor g.internal_ext) := by
  refine ⟨fun h => ?_, fun h => ?_⟩
  · rw [ws_url_cursor, if_neg h]
  · rw [ws_url_internal_ext, if_neg h]

/-- Signing a URL that carries the position. -/
theorem keeps_sign_carried {g : PathLog} {url : UnsignedUrl} (h : g.Carries url) :
    Keeps path_monitor (· = g) (net (.sign url)) := by
  rintro _ rfl
  refine wp_perform_bind.2 ⟨h, ?_⟩
  rintro - _ ⟨-, rfl⟩
  exact keeps_quiet path_monitor_quiet (I := (· = _)) (.net_end _) rfl _ rfl

/-- A request at the position `cursor`, `internal_ext` moves the position as the batch says. -/
theorem wp_fetch_at {g : PathLog} {cursor internal_ext : Bytes}
    {Q : Except Exn ProtoMessageFetchResult → PathLog → Prop}
    (hc : cursor = g.cursor) (he : internal_ext = g.internal_ext)
    (hQ : ∀ r, g.regular (.mark (.fetched r)) → Q r (g.next (.mark (.fetched r)) ())) :
    wp path_monitor (fetch_once cfg cursor internal_ext) Q g := by
  subst hc he
  refine wp_fetch_once path_monitor_quiet (· = g) ⟨trivial, ?_⟩ (fun _ => keeps_sign_carried carries_fetch_url) ?_
  · rintro - _ ⟨-, rfl⟩; rfl
  · rintro r _ rfl
    refine ⟨trivial, ?_⟩
    rintro ⟨⟩ _ ⟨hreg, rfl⟩
    exact hQ r hreg

theorem keeps_path_dispatch {g : PathLog} (msg : BaseProtoMessage) :
    Keeps path_monitor (· = g) (dispatch_message cfg msg) := by
  rintro _ rfl
  refine wp_dispatch_message path_monitor_quiet ⟨trivial, ?_⟩
  rintro - _ ⟨-, rfl⟩
  refine ⟨rfl, trivial, ?_⟩
  rintro - _ ⟨-, rfl⟩
  rfl

/-- A session opens its socket at the position and does not move it. -/
theorem keeps_run_websocket_at {g : PathLog} {cur : ProtoMessageFetchResult} (hc : cur.cursor = g.cursor)
    (he : cur.internal_ext = g.internal_ext) : Keeps path_monitor (· = g) (run_websocket cfg cur) := by
  have hopen : Keeps path_monitor (· = g) (open_session cur).run := by
    refine keeps_quiet_open_session path_monitor_quiet (fun host room_id => ?_) fun url cookies ua => ?_
    · rw [hc, he]; exact keeps_sign_carried carries_ws_url
    · rintro _ rfl; exact ⟨trivial, fun _ _ h => h.2⟩
  have hmark : ∀ m, (∀ initial, m ≠ .poll_loop initial) → (∀ r, m ≠ .fetched r) →
      Keeps path_monitor (· = g) (mark m) := by
    rintro m h₁ h₂ _ rfl
    refine ⟨trivial, ?_⟩
    rintro - _ ⟨-, rfl⟩
    cases m with
    | poll_loop initial => exact absurd rfl (h₁ initial)
    | fetched r => exact absurd rfl (h₂ r)
    | _ => rfl
  refine (hmark _ (by simp) (by simp)).bind fun _ => hopen.bind fun r => ?_
  cases r with
  | error e => exact (hmark _ (by simp) (by simp)).bind fun _ => keeps_pure _
  | ok _ =>
    refine Keeps.bind (keeps_pump_session ?_ keeps_path_dispatch ?_ ?_) fun r => ?_
    · exact fun a h => keeps_quiet path_monitor_quiet a (Act.quiet_of_plain h)
    · rintro _ rfl; exact ⟨trivial, fun _ _ h => h.2⟩
    · exact fun _ => keeps_quiet_sink path_monitor_quiet _ _
    · exact (hmark _ (by simp) (by simp)).bind fun _ => keeps_pure _

theorem wp_ws_path {allow_fallback : Bool} :
    wp path_monitor (run_websocket_with_reconnect cfg initial allow_fallback) (fun _ _ => True) (init initial) := by
  refine wp_mono (wp_run_websocket_with_reconnect path_monitor_quiet
    (fun cur g => cur.cursor = g.cursor ∧ cur.internal_ext = g.internal_ext ∧ g.polling = false) ?_ ?_
    ⟨rfl, rfl, rfl⟩) fun _ _ _ => trivial
  · rintro cur g ⟨hc, he, hp⟩
    exact wp_mono (keeps_run_websocket_at hc he g rfl) fun _ _ h => h ▸ ⟨hc, he, hp⟩
  · rintro cur g ⟨hc, he, hp⟩
    refine wp_fetch_at hc he fun r hreg => ?_
    cases r with
    | error e => exact ⟨hc, he, hp⟩
    | ok batch =>
      simp only [regular, hp, Bool.false_or, Bool.and_eq_true, Bool.or_eq_true, decide_eq_true_eq] at hreg
      refine ⟨?_, ?_, hp⟩
      · rcases hreg.1 with hb | hg
        · simp [next, hb]
        · by_cases hb : batch.cursor = [] <;> simp [next, hb, hg]
      · rcases hreg.2 with hb | hg
        · simp [next, hb]
        · by_cases hb : batch.internal_ext = [] <;> simp [next, hb, hg]

theorem wp_poll_path {g : PathLog} : wp path_monitor (poll_loop cfg initial) (fun _ _ => True) g := by
  refine wp_poll_rounds path_monitor_quiet (fun s g => s.cursor = g.cursor ∧ s.internal_ext = g.internal_ext)
    (fun _ _ _ => trivial) ⟨trivial, ?_⟩ ?_ ?_
  · rintro ⟨⟩ _ ⟨hreg, rfl⟩
    have : initial.cursor = g.cursor ∧ initial.internal_ext = g.internal_ext := by simpa [regular] using hreg
    exact this
  · rintro s g h
    refine ⟨trivial, ?_⟩
    rintro - _ ⟨-, rfl⟩
    exact h
  · rintro s g ⟨hc, he⟩
    refine wp_fetch_at hc he fun r _ => ?_
    cases r with
    | error e => exact ⟨hc, he⟩
    | ok batch =>
      refine wp_mono (keeps_process_fetch_result keeps_path_dispatch batch _ rfl) ?_
      rintro ended _ rfl
      cases ended with
      | true => trivial
      | false => exact ⟨by simp [Poll.advance, next, hc], by simp [Poll.advance, next, he]⟩

theorem wp_transport : wp path_monitor (transport cfg initial) (fun _ _ => True) (init initial) := by
  have quiet : ∀ {I} (a : Act), a.quiet → Keeps path_monitor I (call a) := fun a ha =>
    keeps_quiet path_monitor_quiet a ha
  unfold transport
  split
  · refine wp_bind_keeps (quiet (.spawn _) rfl) fun _ => wp_bind.2 (wp_mono wp_ws_path fun _ g _ => ?_)
    exact wp_bind_keeps (quiet (.store _ _) rfl) fun _ => quiet (I := fun _ => True) .join rfl g trivial
  · split
    · refine wp_bind.2 (wp_mono wp_ws_path fun handled _ _ => ?_)
      cases handled with
      | true => trivial
      | false => exact wp_poll_path
    · exact wp_poll_path

/-! ### Runs -/

/-- In every run whose refreshes and hand-over are regular, each request carries the last non-empty cursor
and extension received. -/
theorem position_never_regresses {tr : List (Ev Resp)} {q : Code Unit}
    (h : Runs (transport cfg initial) tr q)
    (hreg : ∀ pre a r post, tr = pre ++ ⟨a, r⟩ :: post → (PathLog.of initial pre).regular a) :
    ∀ pre post url, tr = pre ++ ⟨.net_begin (.sign url), ()⟩ :: post → (PathLog.of initial pre).Carries url := by
  rintro pre post url rfl
  exact Monitor.ok_of_assumed wp_transport h (Monitor.Assumed.of_append hreg)

/-- A refresh that moves the position to `B`, and the URL of the session after it. -/
theorem refreshed_position :
    let p := transport (sample_config {}) { cursor := lit "A" }
    let os := List.replicate 89 (sample_answer (sample_batch [] (lit "B")).1 (.Closed, []))
    let url := ws_url (lit "webcast-ws.us.tiktok.com") 7 (lit "B") []
    pending (exec os p).2 = some (.net_begin (.sign url)) ∧
      (PathLog.of { cursor := lit "A" } (exec os p).1).Carries url := by
  intro p os url
  have hsign : pending (exec os p).2 = some (.net_begin (.sign url)) := rfl
  obtain ⟨q, hrun⟩ := runs_exec_pending hsign ()
  have hreg : Monitor.Assumed (fun g a _ => g.regular a) PathLog.next (PathLog.init { cursor := lit "A" })
      ((exec os p).1 ++ [⟨.net_begin (.sign url), ()⟩]) := by decide +kernel
  exact ⟨hsign, position_never_regresses hrun hreg _ _ _ rfl⟩

/-- Two dropped sessions; the first refresh returns the cursor `B`, the second one none. -/
def dropped_sessions : List (∀ a, Resp a) :=
  List.replicate 84 (sample_answer (sample_batch [] (lit "B")).1 (.Closed, [])) ++
    List.replicate 81 (sample_answer (sample_batch [1] []).1 (.Closed, []))

/-- After a refresh without a cursor the next session is opened without one, although an earlier refresh
returned `B`. -/
theorem refresh_loses_cursor :
    ¬ ∀ (cfg : Config) (initial : ProtoMessageFetchResult) (tr : List (Ev Resp)) (q : Code Unit),
      Runs (transport cfg initial) tr q → ∀ pre post url, tr = pre ++ ⟨.net_begin (.sign url), ()⟩ :: post →
        let received := Monitor.after PathLog.next { cursor := [], internal_ext := [] } pre
        received.cursor ≠ [] → url.params.param (lit "cursor") = some received.cursor := by
  intro h
  have hsign : pending (exec dropped_sessions (transport (sample_config {}) { cursor := lit "A" })).2 =
      some (.net_begin (.sign (ws_url (lit "webcast-ws.us.tiktok.com") 7 [] []))) := rfl
  obtain ⟨q, hrun⟩ := runs_exec_pending hsign ()
  exact absurd (h _ _ _ _ hrun _ _ _ rfl (by decide)) (by decide)

end TtLive
