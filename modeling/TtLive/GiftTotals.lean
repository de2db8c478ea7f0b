import Mathlib.Algebra.BigOperators.Group.List.Basic
import Mathlib.Algebra.Ring.Int.Defs
import TtLive.Client
import TtLive.EventFrame

/-!
# Gift totals

A combo of a streakable gift comes as updates and a closing message, any other gift as one message, and what
different users send is interleaved. Adding up the counts of the events that are not `gift_streaking` gives
what was sent except for the single gifts whose `repeat_end` is 0: `parse_event` does not look at the gift's
type (`total_recoverable_iff`).
-/

namespace TtLive

/-- Several sequences merged into one, each in its own order. -/
inductive Interleaves {α : Type} : List (List α) → List α → Prop
  | done {ls : List (List α)} (h : ∀ l ∈ ls, l = []) : Interleaves ls []
  | next {ls ls' : List (List α)} {x : α} {l xs : List α} (h : Interleaves (ls ++ l :: ls') xs) :
    Interleaves (ls ++ (x :: l) :: ls') (x :: xs)

theorem Interleaves.perm {α : Type} {ls : List (List α)} {xs : List α} (h : Interleaves ls xs) :
    xs.Perm ls.flatten := by
  induction h with
  | done h =>
    rw [List.flatten_eq_nil_iff.2 h]
  | @next ls ls' x l xs _ ih =>
    have hmid : (ls ++ (x :: l) :: ls').flatten = ls.flatten ++ x :: (l ++ ls'.flatten) := by simp
    rw [hmid]
    refine List.Perm.trans (ih.cons x) ?_
    rw [List.flatten_append, List.flatten_cons]
    exact List.perm_middle.symm

section
variable (cfg : Config)

/-- A gift message with an embedded gift, and what it parses to. -/
structure GiftMessage where
  msg : BaseProtoMessage
  body : WebcastGiftMessage
  gift : ProtoGift
  method_eq : msg.method = Message.Gift.method
  parses : cfg.codec.gift msg.payload = some body
  embeds : body.gift = some gift

/-- The updates of a streak and the message that closes it. -/
structure Combo where
  updates : List (GiftMessage cfg)
  final : GiftMessage cfg
  streakable : ∀ m ∈ updates ++ [final], m.gift.type = 1
  in_progress : ∀ m ∈ updates, m.body.repeat_end = 0
  closed : final.body.repeat_end = 1
  counts : ((updates ++ [final]).map fun m => m.body.repeat_count).Pairwise (· ≤ ·)

/-- What a user sends. -/
inductive Sending
  | combo (c : Combo cfg)
  | single (m : GiftMessage cfg) (not_streakable : m.gift.type ≠ 1)

variable {cfg}

def Sending.messages : Sending cfg → List (GiftMessage cfg)
  | .combo c => c.updates ++ [c.final]
  | .single m _ => [m]

/-- The number of gifts. -/
def Sending.count : Sending cfg → Int
  | .combo c => c.final.body.repeat_count
  | .single m _ => m.body.repeat_count

/-- The event that is emitted for the message. -/
def GiftMessage.event (m : GiftMessage cfg) : Event := message_event cfg m.msg

/-- What an application adds up. -/
def total (evs : List Event) : Int :=
  ((evs.filter fun e => e.type = .Gift && !e.gift_streaking).map Event.repeat_count).sum

/-- The total is what was sent, and an event streaks only while its combo is in progress. -/
structure TotalRecoverable (sendings : List (Sending cfg)) (ms : List (GiftMessage cfg)) : Prop where
  total_eq : total (ms.map GiftMessage.event) = (sendings.map Sending.count).sum
  streaking : ∀ m ∈ ms, m.event.gift_streaking = true → ∃ c : Combo cfg, .combo c ∈ sendings ∧ m ∈ c.updates

theorem GiftMessage.event_eq (m : GiftMessage cfg) : m.event.type = .Gift ∧
    m.event.repeat_count = m.body.repeat_count ∧ m.event.gift_streaking = (m.body.repeat_end == 0) := by
  unfold GiftMessage.event message_event
  rw [m.method_eq]
  exact parse_gift m.parses

/-- A message counts unless it streaks. -/
theorem total_cons (m : GiftMessage cfg) (ms : List (GiftMessage cfg)) :
    total ((m :: ms).map GiftMessage.event) =
      (if m.body.repeat_end = 0 then 0 else m.body.repeat_count) + total (ms.map GiftMessage.event) := by
  obtain ⟨htype, hcount, hstreak⟩ := m.event_eq
  unfold total
  rw [List.map_cons, List.filter_cons, htype, hstreak]
  by_cases hend : m.body.repeat_end = 0
  · simp [hend]
  · simp [hend, hcount]

theorem total_append (ms ms' : List (GiftMessage cfg)) :
    total ((ms ++ ms').map GiftMessage.event) =
      total (ms.map GiftMessage.event) + total (ms'.map GiftMessage.event) := by
  unfold total
  rw [List.map_append, List.filter_append, List.map_append, List.sum_append]

theorem total_perm {ms ms' : List (GiftMessage cfg)} (h : ms.Perm ms') :
    total (ms.map GiftMessage.event) = total (ms'.map GiftMessage.event) :=
  List.Perm.sum_eq (((h.map _).filter _).map _)

/-- A finished combo is counted once, with its final count. -/
theorem total_combo (c : Combo cfg) :
    total ((c.updates ++ [c.final]).map GiftMessage.event) = c.final.body.repeat_count := by
  have hupdates : total (c.updates.map GiftMessage.event) = 0 := by
    have h := c.in_progress
    generalize c.updates = us at h
    induction us with
    | nil => rfl
    | cons m us ih =>
      rw [total_cons, if_pos (h m (by simp)), ih fun m hm => h m (List.mem_cons_of_mem _ hm)]
      rfl
  have hend : c.final.body.repeat_end ≠ 0 := by
    rw [c.closed]
    decide
  rw [total_append, hupdates, total_cons, if_neg hend]
  show 0 + (_ + 0) = _
  omega

theorem total_messages {s : Sending cfg} (h : ∀ m hm, s = .single m hm → m.body.repeat_end ≠ 0) :
    total (s.messages.map GiftMessage.event) = s.count := by
  cases s with
  | combo c => exact total_combo c
  | single m hm =>
    show total ([m].map GiftMessage.event) = m.body.repeat_count
    rw [total_cons, if_neg (h m hm rfl)]
    show _ + 0 = _
    omega

theorem total_sendings {sendings : List (Sending cfg)}
    (h : ∀ m hm, Sending.single m hm ∈ sendings → m.body.repeat_end ≠ 0) :
    total ((sendings.map Sending.messages).flatten.map GiftMessage.event) = (sendings.map Sending.count).sum := by
  induction sendings with
  | nil => rfl
  | cons s sendings ih =>
    have hs : total (s.messages.map GiftMessage.event) = s.count :=
      total_messages fun m hm heq => h m hm (heq ▸ .head _)
    rw [List.map_cons, List.flatten_cons, total_append, hs, ih fun m hm hmem => h m hm (.tail _ hmem), List.map_cons,
      List.sum_cons]

/-- The gifts sent can be added up exactly if no single gift has a `repeat_end` of 0. -/
theorem total_recoverable_iff {sendings : List (Sending cfg)} {ms : List (GiftMessage cfg)}
    (h : Interleaves (sendings.map Sending.messages) ms) :
    TotalRecoverable sendings ms ↔ ∀ m hm, Sending.single m hm ∈ sendings → m.body.repeat_end ≠ 0 := by
  have hmem : ∀ m : GiftMessage cfg, m ∈ ms ↔ ∃ s ∈ sendings, m ∈ s.messages := by
    intro m
    rw [h.perm.mem_iff, List.mem_flatten]
    simp
  constructor
  · rintro hrec m hm hsingle hend
    have hin : m ∈ ms := (hmem m).2 ⟨_, hsingle, List.mem_singleton.2 rfl⟩
    have hstreak : m.event.gift_streaking = true := by
      rw [m.event_eq.2.2, hend]
      rfl
    obtain ⟨c, -, hc⟩ := hrec.streaking m hin hstreak
    exact hm (c.streakable m (List.mem_append_left _ hc))
  · intro hends
    refine ⟨(total_perm h.perm).trans (total_sendings hends), fun m hm hstreak => ?_⟩
    obtain ⟨s, hs, hms⟩ := (hmem m).1 hm
    rw [m.event_eq.2.2, beq_iff_eq] at hstreak
    cases s with
    | single m' hm' =>
      have heq : m = m' := List.mem_singleton.1 hms
      exact absurd (heq ▸ hstreak) (hends m' hm' hs)
    | combo c =>
      refine ⟨c, hs, ?_⟩
      rcases List.mem_append.1 hms with hup | hfinal
      · exact hup
      · rw [List.mem_singleton.1 hfinal, c.closed] at hstreak
        exact absurd hstreak (by decide)

/-- A gift message of three small fields and a gift, serialised and parsed. -/
def sample_gift (count repeat_end type : UInt8) : Bytes × WebcastGiftMessage :=
  ([0x10, 0x05, 0x28, count, 0x48, repeat_end, 0x7a, 0x02, 0x58, type],
    { gift_id := 5, repeat_count := count.toNat, repeat_end := repeat_end.toNat, gift := some { type := type.toNat } })

/-- A client that parses updates of a combo, its end, and a single gift with either `repeat_end`. -/
def gift_config : Config := { sample_config {} with
  codec := { sample_codec with
    gift := fun b => [sample_gift 1 0 1, sample_gift 3 1 1, sample_gift 1 0 2, sample_gift 1 1 2].lookup b } }

def gift_message (count repeat_end type : UInt8)
    (h : gift_config.codec.gift (sample_gift count repeat_end type).1 = some (sample_gift count repeat_end type).2) :
    GiftMessage gift_config where
  msg := { method := Message.Gift.method, payload := (sample_gift count repeat_end type).1 }
  body := (sample_gift count repeat_end type).2
  gift := { type := type.toNat }
  method_eq := rfl
  parses := h
  embeds := rfl

def combo_of_three : Combo gift_config where
  updates := [gift_message 1 0 1 (by decide)]
  final := gift_message 3 1 1 (by decide)
  streakable := by decide
  in_progress := by decide
  closed := by decide
  counts := by decide

/-- A single gift comes in between. -/
theorem total_of_combo_and_single :
    TotalRecoverable [.combo combo_of_three, .single (gift_message 1 1 2 (by decide)) (by decide)]
      [gift_message 1 0 1 (by decide), gift_message 1 1 2 (by decide), gift_message 3 1 1 (by decide)] := by
  have hmerge : Interleaves
      [[gift_message 1 0 1 (by decide), gift_message 3 1 1 (by decide)], [gift_message 1 1 2 (by decide)]]
      [gift_message 1 0 1 (by decide), gift_message 1 1 2 (by decide), gift_message 3 1 1 (by decide)] := by
    refine @Interleaves.next _ [] _ _ _ _ ?_
    refine @Interleaves.next _ [[gift_message 3 1 1 (by decide)]] _ _ _ _ ?_
    refine @Interleaves.next _ [] _ _ _ _ (.done ?_)
    simp
  refine (@total_recoverable_iff gift_config [.combo combo_of_three, .single _ _] _ hmerge).2 ?_
  intro m hm hmem
  simp only [List.mem_cons, reduceCtorEq, false_or, List.not_mem_nil, or_false, Sending.single.injEq] at hmem
  rw [hmem]
  decide

/-- One gift that is no streak, with a `repeat_end` of 0. -/
theorem single_gift_not_counted : ¬ ∀ (cfg : Config) (sendings : List (Sending cfg)) (ms : List (GiftMessage cfg)),
    Interleaves (sendings.map Sending.messages) ms → TotalRecoverable sendings ms := by
  intro hall
  have hmerge : Interleaves [[gift_message 1 0 2 (by decide)]] [gift_message 1 0 2 (by decide)] := by
    refine @Interleaves.next _ [] _ _ _ _ (.done ?_)
    simp
  have hrec := hall gift_config [.single (gift_message 1 0 2 (by decide)) (by decide)] _ hmerge
  exact absurd hrec.total_eq (by decide)

end

end TtLive
