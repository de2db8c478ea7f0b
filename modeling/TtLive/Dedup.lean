import TtLive.Window
import TtLive.Events

/-!
# De-duplication (`seen_ids_`, `seen_order_`, `remember_id`)

`Dedup.mark_seen` is the look-up of `dispatch_message` followed by `remember_id`. The two containers represent
a history of remembered ids (`Dedup.Rep`): the deque holds its last `kMaxSeenIds` ids and the set the same
ids, so the decision to emit is `Window.record` on the history. A call of `dispatch_message` is the
message with the thread that passes it in; the calls are serialised by `dispatch_mu_`, so any interleaving
of the two transports is a list of calls.
-/

namespace TtLive

def kMaxSeenIds : Nat := 500000

structure Dedup where
  seen_ids_ : Finset Int := ∅
  seen_order_ : List Int := []

namespace Dedup

/-- `remember_id`. -/
def remember_id (d : Dedup) (id : Int) : Dedup :=
  let seen_ids_ := insert id d.seen_ids_
  let seen_order_ := d.seen_order_ ++ [id]
  if seen_order_.length > kMaxSeenIds then
    match seen_order_ with
    | front :: rest => ⟨seen_ids_.erase front, rest⟩
    | [] => ⟨seen_ids_, []⟩
  else ⟨seen_ids_, seen_order_⟩

/-- `if (seen_ids_.find(id) != seen_ids_.end()) return false; remember_id(id);` -/
def mark_seen (d : Dedup) (id : Int) : Bool × Dedup :=
  if id ∈ d.seen_ids_ then (false, d) else (true, d.remember_id id)

/-- Whether `dispatch_message` emits the message, and the window afterwards. -/
def dispatch (d : Dedup) (msg : BaseProtoMessage) : Bool × Dedup :=
  if msg.msg_id ≠ 0 then d.mark_seen msg.msg_id else (true, d)

/-- The window and the emitted calls after a sequence of calls; `τ` names the calling threads. -/
def deliver {τ : Type} (calls : List (τ × BaseProtoMessage)) : Dedup × List (τ × BaseProtoMessage) :=
  calls.foldl (fun s c =>
    ((s.1.dispatch c.2).2, if (s.1.dispatch c.2).1 then s.2 ++ [c] else s.2)) ({}, [])

/-- The ids remembered for the given emitted calls. -/
def remembered {τ : Type} (emitted : List (τ × BaseProtoMessage)) : List Int :=
  (emitted.map (·.2.msg_id)).filter (· ≠ 0)

/-! ### The containers represent a history -/

structure Rep (d : Dedup) (hist : List Int) : Prop where
  order : d.seen_order_ = hist.rtake kMaxSeenIds
  ids : ∀ id, id ∈ d.seen_ids_ ↔ id ∈ d.seen_order_
  spaced : Window.Spaced kMaxSeenIds hist

theorem rep_init : Rep {} [] := ⟨by simp, by simp, Window.spaced_nil⟩

namespace Rep
variable {d : Dedup} {hist : List Int}

theorem mem_iff (h : Rep d hist) (id : Int) : id ∈ d.seen_ids_ ↔ id ∈ hist.rtake kMaxSeenIds := by
  rw [h.ids, h.order]

theorem nodup (h : Rep d hist) : d.seen_order_.Nodup := h.order ▸ h.spaced.nodup_rtake

theorem length_le (h : Rep d hist) : d.seen_order_.length ≤ kMaxSeenIds := by
  rw [h.order, List.rtake_eq_reverse_take_reverse]; simp

theorem remember_id (h : Rep d hist) {id : Int} (hid : id ∉ d.seen_ids_) :
    Rep (d.remember_id id) (hist ++ [id]) := by
  have hnew : id ∉ hist.rtake kMaxSeenIds := fun hm => hid ((h.mem_iff id).2 hm)
  have hsp := h.spaced.snoc hnew
  have hord := Window.rtake_snoc hist id (n := kMaxSeenIds) (by decide)
  rw [← h.order] at hord
  unfold Dedup.remember_id
  dsimp only
  split
  · next hlen =>
    rw [if_pos hlen] at hord
    cases hl : d.seen_order_ ++ [id] with
    | nil => simp at hl
    | cons front rest =>
      rw [hl, List.tail_cons] at hord
      refine ⟨hord.symm, fun x => ?_, hsp⟩
      -- the evicted id occurs nowhere else in the deque
      have hnd : (front :: rest).Nodup := by
        rw [← hl]
        exact h.nodup.append (List.nodup_singleton id) fun y hy hyid =>
          hid ((h.ids id).2 (List.mem_singleton.1 hyid ▸ hy))
      have hmem : x ∈ insert id d.seen_ids_ ↔ x ∈ front :: rest := by
        rw [← hl, Finset.mem_insert, h.ids]; simp [or_comm]
      rw [Finset.mem_erase, hmem, List.mem_cons]
      constructor
      · rintro ⟨hne, rfl | hx⟩
        · exact absurd rfl hne
        · exact hx
      · intro hx
        exact ⟨fun he => (List.nodup_cons.1 hnd).1 (he ▸ hx), .inr hx⟩
  · next hlen =>
    rw [if_neg hlen] at hord
    refine ⟨hord.symm, fun x => ?_, hsp⟩
    rw [Finset.mem_insert, h.ids]; simp [or_comm]

/-- `mark_seen` decides and records as the window over the history does. -/
theorem mark_seen (h : Rep d hist) (id : Int) :
    ((d.mark_seen id).1 = true ↔ id ∉ hist.rtake kMaxSeenIds) ∧
      Rep (d.mark_seen id).2 (Window.record kMaxSeenIds hist id) := by
  unfold Dedup.mark_seen Window.record
  by_cases hid : id ∈ d.seen_ids_
  · have hm := (h.mem_iff id).1 hid
    rw [if_pos hid, if_pos hm]
    exact ⟨⟨fun ht => Bool.noConfusion ht, fun hn => absurd hm hn⟩, h⟩
  · have hm : id ∉ hist.rtake kMaxSeenIds := fun hm => hid ((h.mem_iff id).2 hm)
    rw [if_neg hid, if_neg hm]
    exact ⟨⟨fun _ => hm, fun _ => rfl⟩, h.remember_id hid⟩

end Rep

/-! ### Sequences of calls -/

section
variable {τ : Type} {calls : List (τ × BaseProtoMessage)}

theorem deliver_snoc (calls : List (τ × BaseProtoMessage)) (c : τ × BaseProtoMessage) :
    deliver (calls ++ [c]) =
      (((deliver calls).1.dispatch c.2).2,
        if ((deliver calls).1.dispatch c.2).1 then (deliver calls).2 ++ [c] else (deliver calls).2) := by
  rw [deliver, List.foldl_append]; rfl

theorem remembered_snoc (emitted : List (τ × BaseProtoMessage)) (c : τ × BaseProtoMessage) :
    remembered (emitted ++ [c]) =
      if c.2.msg_id ≠ 0 then remembered emitted ++ [c.2.msg_id] else remembered emitted := by
  by_cases h : c.2.msg_id = 0 <;> simp [remembered, h]

/-- The invariant of a run: the window represents the remembered ids. -/
theorem rep_deliver (calls : List (τ × BaseProtoMessage)) :
    Rep (deliver calls).1 (remembered (deliver calls).2) := by
  induction calls using List.reverseRecOn with
  | nil => exact rep_init
  | append_singleton calls c ih =>
    rw [deliver_snoc]
    by_cases hz : c.2.msg_id = 0
    · simp only [dispatch, hz, ne_eq, not_true, if_false, if_true, remembered_snoc]
      exact ih
    · obtain ⟨hiff, hrep⟩ := ih.mark_seen c.2.msg_id
      simp only [dispatch, hz, ne_eq, not_false_eq_true, if_true]
      unfold Window.record at hrep
      by_cases hm : c.2.msg_id ∈ (remembered (deliver calls).2).rtake kMaxSeenIds
      · rw [if_pos hm] at hrep
        rw [if_neg fun ht => hiff.1 ht hm]
        exact hrep
      · rw [if_neg hm] at hrep
        rw [if_pos (hiff.2 hm), remembered_snoc, if_pos hz]
        exact hrep

/-- A message is emitted exactly when its id is 0 or not among the last `kMaxSeenIds` remembered ids. -/
theorem dispatch_iff (calls : List (τ × BaseProtoMessage)) (msg : BaseProtoMessage) :
    ((deliver calls).1.dispatch msg).1 = true ↔
      msg.msg_id = 0 ∨ msg.msg_id ∉ (remembered (deliver calls).2).rtake kMaxSeenIds := by
  unfold dispatch
  by_cases hz : msg.msg_id = 0
  · simp [hz]
  · simp only [ne_eq, hz, not_false_eq_true, if_true, false_or]
    exact ((rep_deliver calls).mark_seen msg.msg_id).1

theorem deliver_append (calls more : List (τ × BaseProtoMessage)) :
    ∃ l, (deliver (calls ++ more)).2 = (deliver calls).2 ++ l ∧ l.Sublist more := by
  induction more using List.reverseRecOn with
  | nil => exact ⟨[], by simp, .refl _⟩
  | append_singleton more c ih =>
    obtain ⟨l, hl, hsub⟩ := ih
    rw [← List.append_assoc, deliver_snoc]
    split
    · exact ⟨l ++ [c], by rw [hl]; simp, hsub.append (.refl _)⟩
    · exact ⟨l, hl, hsub.trans (List.sublist_append_left _ _)⟩

theorem emitted_sublist (calls : List (τ × BaseProtoMessage)) : (deliver calls).2.Sublist calls := by
  obtain ⟨l, hl, hsub⟩ := deliver_append ([] : List (τ × BaseProtoMessage)) calls
  rw [List.nil_append] at hl
  rw [hl]
  exact hsub

/-- Every non-zero id that is passed in is remembered at some time. -/
theorem mem_remembered {c : τ × BaseProtoMessage} (hc : c ∈ calls) (hz : c.2.msg_id ≠ 0) :
    c.2.msg_id ∈ remembered (deliver calls).2 := by
  induction calls using List.reverseRecOn with
  | nil => simp at hc
  | append_singleton calls c' ih =>
    have hiff := dispatch_iff calls c'.2
    rw [deliver_snoc]
    rcases List.mem_append.1 hc with hc | hc
    · split
      · rw [remembered_snoc]; split <;> simp [ih hc]
      · exact ih hc
    · obtain rfl := List.mem_singleton.1 hc
      split
      · rw [remembered_snoc, if_pos hz]; simp
      · next h =>
        rw [hiff, not_or, not_not] at h
        rw [List.rtake_eq_reverse_take_reverse, List.mem_reverse] at h
        exact List.mem_reverse.1 (List.mem_of_mem_take h.2)

theorem count_remembered (emitted : List (τ × BaseProtoMessage)) {id : Int} (hz : id ≠ 0) :
    (emitted.filter fun c => c.2.msg_id = id).length = (remembered emitted).count id := by
  induction emitted with
  | nil => rfl
  | cons c l ih =>
    simp only [remembered, List.map_cons, List.filter_cons] at ih ⊢
    by_cases hc : c.2.msg_id = id
    · simp [hc, hz, ih]
    · by_cases h0 : c.2.msg_id = 0
      · simp [h0, ih, Ne.symm hz]
      · simp [h0, hc, ih]

theorem filter_remembered (l : List (τ × BaseProtoMessage)) (id : Int) :
    ((remembered l).filter (· ≠ id)).length =
      (l.filter fun c => c.2.msg_id ≠ 0 ∧ c.2.msg_id ≠ id).length := by
  induction l with
  | nil => rfl
  | cons c l ih =>
    simp only [remembered, List.map_cons, List.filter_cons] at ih ⊢
    by_cases h0 : c.2.msg_id = 0 <;> by_cases hi : c.2.msg_id = id <;> simp_all

/-- Two emissions of one non-zero id are at least `kMaxSeenIds` emissions of other non-zero ids apart. -/
theorem emission_gap {a b c : List (τ × BaseProtoMessage)} {x y : τ × BaseProtoMessage}
    (he : (deliver calls).2 = a ++ x :: b ++ y :: c) (hz : x.2.msg_id ≠ 0) (hxy : y.2.msg_id = x.2.msg_id) :
    kMaxSeenIds ≤ (b.filter fun z => z.2.msg_id ≠ 0 ∧ z.2.msg_id ≠ x.2.msg_id).length := by
  have hsp := (rep_deliver calls).spaced
  have hrem : remembered (deliver calls).2 =
      remembered a ++ x.2.msg_id :: remembered b ++ x.2.msg_id :: remembered c := by
    rw [he, ← hxy]
    simp [remembered, hz, hxy]
  rw [hrem] at hsp
  rw [← filter_remembered]
  exact hsp.gap

/-- With at most `kMaxSeenIds` distinct non-zero ids, every one passed in is emitted exactly once. -/
theorem emitted_once (hcard : (remembered calls).toFinset.card ≤ kMaxSeenIds)
    {c : τ × BaseProtoMessage} (hc : c ∈ calls) (hz : c.2.msg_id ≠ 0) :
    ((deliver calls).2.filter fun e => e.2.msg_id = c.2.msg_id).length = 1 := by
  have hsub : ∀ id ∈ remembered (deliver calls).2, id ∈ (remembered calls).toFinset := fun id hid =>
    List.mem_toFinset.2 ((((emitted_sublist calls).map _).filter _).subset hid)
  have hnd := (rep_deliver calls).spaced.nodup _ hsub hcard
  rw [count_remembered _ hz]
  exact List.count_eq_one_of_mem hnd (mem_remembered hc hz)

/-- The first call that carries an id is emitted, whichever thread makes it. -/
theorem first_emitted {pre post : List (τ × BaseProtoMessage)} {c : τ × BaseProtoMessage}
    (hcalls : calls = pre ++ c :: post) (hfirst : ∀ e ∈ pre, e.2.msg_id ≠ c.2.msg_id) :
    ∃ l, (deliver calls).2 = (deliver pre).2 ++ c :: l := by
  have hnew : ((deliver pre).1.dispatch c.2).1 = true := by
    rw [dispatch_iff]
    refine .inr fun hm => ?_
    rw [List.rtake_eq_reverse_take_reverse, List.mem_reverse] at hm
    have hm := List.mem_of_mem_filter (List.mem_reverse.1 (List.mem_of_mem_take hm))
    obtain ⟨e, he, heq⟩ := List.mem_map.1 hm
    exact hfirst e ((emitted_sublist pre).subset he) heq
  obtain ⟨l, hl, -⟩ := deliver_append (pre ++ [c]) post
  refine ⟨l, ?_⟩
  rw [hcalls, show pre ++ c :: post = pre ++ [c] ++ post by simp, hl, deliver_snoc, if_pos hnew]
  simp

/-- De-duplication is an exact FIFO window over the remembered ids. -/
theorem dedup_exact_window (calls : List (τ × BaseProtoMessage)) :
    let d := (deliver calls).1
    let emitted := (deliver calls).2
    d.seen_order_.Nodup ∧ (∀ id, id ∈ d.seen_ids_ ↔ id ∈ d.seen_order_) ∧
    d.seen_order_.length ≤ kMaxSeenIds ∧ d.seen_order_ = (remembered emitted).rtake kMaxSeenIds ∧
    (∀ msg, (d.dispatch msg).1 = true ↔
      msg.msg_id = 0 ∨ msg.msg_id ∉ (remembered emitted).rtake kMaxSeenIds) ∧
    (∀ a x b y c, emitted = a ++ x :: b ++ y :: c → x.2.msg_id ≠ 0 → y.2.msg_id = x.2.msg_id →
      kMaxSeenIds ≤ (b.filter fun z => z.2.msg_id ≠ 0 ∧ z.2.msg_id ≠ x.2.msg_id).length) ∧
    ((remembered calls).toFinset.card ≤ kMaxSeenIds → ∀ pre c post, calls = pre ++ c :: post →
      c.2.msg_id ≠ 0 → (emitted.filter fun e => e.2.msg_id = c.2.msg_id).length = 1 ∧
        ((∀ e ∈ pre, e.2.msg_id ≠ c.2.msg_id) → ∃ l, emitted = (deliver pre).2 ++ c :: l)) := by
  refine ⟨(rep_deliver calls).nodup, (rep_deliver calls).ids, (rep_deliver calls).length_le,
    (rep_deliver calls).order, dispatch_iff calls, fun a x b y c => emission_gap,
    fun hcard pre c post hcalls hz => ⟨?_, ?_⟩⟩
  · exact emitted_once hcard (by rw [hcalls]; simp) hz
  · exact first_emitted hcalls

end

end Dedup

end TtLive
