import TtLive.EventParser

/-!
# What `parse_event` may change

`parse_event` writes into an event that the caller hands in. `parse_event_cases` goes through its branches once:
a message of one of the eight kinds that parses changes the fields of its type, and everything else leaves the
event as it was, of unknown type.
-/

namespace TtLive

/-- The modelled messages. -/
inductive Message
  | Chat
  | Gift
  | Like
  | Member
  | Social
  | RoomUserSeq
  | SubNotify
  | Control
deriving DecidableEq, Repr

namespace Message

def method : Message → Bytes
  | Chat => lit "WebcastChatMessage"
  | Gift => lit "WebcastGiftMessage"
  | Like => lit "WebcastLikeMessage"
  | Member => lit "WebcastMemberMessage"
  | Social => lit "WebcastSocialMessage"
  | RoomUserSeq => lit "WebcastRoomUserSeqMessage"
  | SubNotify => lit "WebcastSubNotifyMessage"
  | Control => lit "WebcastControlMessage"

/-- `m.ParseFromString(data)`. -/
def parses (codec : Codec) (payload : Bytes) : Message → Bool
  | Chat => (codec.chat payload).isSome
  | Gift => (codec.gift payload).isSome
  | Like => (codec.like payload).isSome
  | Member => (codec.member payload).isSome
  | Social => (codec.social payload).isSome
  | RoomUserSeq => (codec.room_user_seq payload).isSome
  | SubNotify => (codec.sub_notify payload).isSome
  | Control => (codec.control payload).isSome

/-- The types that a message can get. -/
def types : Message → List EventType
  | Chat => [.Comment]
  | Gift => [.Gift]
  | Like => [.Like]
  | Member => [.Join]
  | Social => [.Follow, .Share]
  | RoomUserSeq => [.RoomUserSeq]
  | SubNotify => [.Subscribe]
  | Control => [.Control, .LiveEnd]

theorem method_injective {k k' : Message} (h : k.method = k'.method) : k = k' := by
  have : ∀ k ∈ [Chat, Gift, Like, Member, Social, RoomUserSeq, SubNotify, Control],
      ∀ k' ∈ [Chat, Gift, Like, Member, Social, RoomUserSeq, SubNotify, Control], k.method = k'.method → k = k' := by
    decide
  exact this k (by cases k <;> decide) k' (by cases k' <;> decide) h

end Message

/-- `out` with the fields that belong to the type taken from `e`. -/
def with_fields_of (t : EventType) (e out : Event) : Event :=
  match t with
  | .Comment => { out with user := e.user, comment := e.comment }
  | .Gift =>
    { out with
      user := e.user, gift_id := e.gift_id, gift_name := e.gift_name, repeat_count := e.repeat_count,
      gift_streaking := e.gift_streaking, diamond_count := e.diamond_count, gift_type := e.gift_type,
      gift_icon_url := e.gift_icon_url }
  | .Like => { out with user := e.user, like_count := e.like_count, total_likes := e.total_likes }
  | .Join | .Follow | .Share => { out with user := e.user, member_count := e.member_count }
  | .Subscribe => { out with user := e.user }
  | .RoomUserSeq => { out with viewer_count := e.viewer_count }
  | .Control | .LiveEnd => { out with control_action := e.control_action }
  | .Connect | .Disconnect | .Unknown => out

section
variable {codec : Codec} {method payload : Bytes} {out : Event}

theorem fill_gift_frame (g : ProtoGift) (e : Event) :
    fill_gift g e = { e with
      gift_name := (fill_gift g e).gift_name, diamond_count := (fill_gift g e).diamond_count,
      gift_type := (fill_gift g e).gift_type, gift_icon_url := (fill_gift g e).gift_icon_url } := by
  unfold fill_gift
  dsimp only
  split <;> rfl

/-- The outcome for a message that parses. -/
structure Recognised (k : Message) (payload : Bytes) (out : Event) (r : Event × Bool) : Prop where
  recognised : r.2 = true
  type_mem : r.1.type ∈ k.types
  frame : r.1 = { with_fields_of r.1.type r.1 out with type := r.1.type, method := k.method, raw_payload := payload }

/-- `out` after a message that was not recognised. -/
def unknown_event (method payload : Bytes) (out : Event) : Event :=
  { out with type := .Unknown, method := method, raw_payload := payload }

theorem parse_event_other (h : ∀ k : Message, method ≠ k.method) :
    parse_event codec method payload out = (unknown_event method payload out, false) := by
  unfold parse_event
  dsimp only
  rw [if_neg (show method ≠ lit _ from h .Chat), if_neg (show method ≠ lit _ from h .Gift),
    if_neg (show method ≠ lit _ from h .Like), if_neg (show method ≠ lit _ from h .Member),
    if_neg (show method ≠ lit _ from h .Social), if_neg (show method ≠ lit _ from h .RoomUserSeq),
    if_neg (show method ≠ lit _ from h .SubNotify), if_neg (show method ≠ lit _ from h .Control)]
  rfl

/-- Every branch checks the parse before it writes. -/
theorem parse_event_failed {k : Message} (h : k.parses codec payload = false) :
    parse_event codec k.method payload out = (unknown_event k.method payload out, false) := by
  unfold parse_event
  dsimp only
  cases k
  all_goals
    have hnone := Option.not_isSome_iff_eq_none.1 (Bool.eq_false_iff.1 h)
    repeat rw [if_neg (by decide)]
    rw [if_pos (by decide), hnone]
    rfl

/-- A message that parses writes the fields of its type. -/
theorem parse_event_parsed {k : Message} (h : k.parses codec payload = true) :
    Recognised k payload out (parse_event codec k.method payload out) := by
  unfold parse_event
  dsimp only
  cases k
  all_goals
    obtain ⟨m, hm⟩ := Option.isSome_iff_exists.1 h
    repeat rw [if_neg (by decide)]
    rw [if_pos (by decide), hm]
  case Gift =>
    dsimp only
    cases m.gift with
    | none => exact ⟨rfl, .head _, rfl⟩
    | some g =>
      dsimp only
      rw [fill_gift_frame g]
      exact ⟨rfl, .head _, rfl⟩
  case Social =>
    -- an action of 3 or a share type is a share
    dsimp only
    split
    · exact ⟨rfl, .tail _ (.head _), rfl⟩
    · exact ⟨rfl, .head _, rfl⟩
  case Control =>
    dsimp only
    split
    · exact ⟨rfl, .tail _ (.head _), rfl⟩
    · exact ⟨rfl, .head _, rfl⟩
  all_goals exact ⟨rfl, .head _, rfl⟩

theorem parse_gift {m : WebcastGiftMessage} (hm : codec.gift payload = some m) :
    (parse_event codec Message.Gift.method payload out).1.type = .Gift ∧
      (parse_event codec Message.Gift.method payload out).1.repeat_count = m.repeat_count ∧
      (parse_event codec Message.Gift.method payload out).1.gift_streaking = (m.repeat_end == 0) := by
  unfold parse_event
  dsimp only
  repeat rw [if_neg (by decide)]
  rw [if_pos (by decide), hm]
  dsimp only
  cases m.gift with
  | none => exact ⟨rfl, rfl, rfl⟩
  | some g =>
    dsimp only
    rw [fill_gift_frame g]
    exact ⟨rfl, rfl, rfl⟩

/-- A control message ends the live with the actions 3 and 4. -/
theorem control_type {m : WebcastControlMessage} (hm : codec.control payload = some m) :
    (parse_event codec Message.Control.method payload out).1.type =
      if m.action = 3 ∨ m.action = 4 then .LiveEnd else .Control := by
  unfold parse_event
  dsimp only
  repeat rw [if_neg (by decide)]
  rw [if_pos (by decide), hm]

end

/-- What the contract of `parse_event` promises of one call. -/
structure AtomicParse (codec : Codec) (method payload : Bytes) (out : Event) : Prop where
  arguments : (parse_event codec method payload out).1.method = method ∧
    (parse_event codec method payload out).1.raw_payload = payload
  recognised_iff : (parse_event codec method payload out).2 = true ↔
    ∃ k : Message, method = k.method ∧ k.parses codec payload = true
  unrecognised : (parse_event codec method payload out).2 = false →
    (parse_event codec method payload out).1 =
      { out with type := .Unknown, method := method, raw_payload := payload }
  type_mem : (parse_event codec method payload out).2 = true → ∀ k : Message, method = k.method →
    (parse_event codec method payload out).1.type ∈ k.types
  frame : (parse_event codec method payload out).2 = true →
    (parse_event codec method payload out).1 =
      { with_fields_of (parse_event codec method payload out).1.type (parse_event codec method payload out).1 out with
        type := (parse_event codec method payload out).1.type, method := method, raw_payload := payload }
  live_end_iff : (parse_event codec method payload out).1.type = .LiveEnd ↔
    method = Message.Control.method ∧ ∃ m, codec.control payload = some m ∧ (m.action = 3 ∨ m.action = 4)

theorem parse_event_atomic (codec : Codec) (method payload : Bytes) (out : Event) :
    AtomicParse codec method payload out := by
  by_cases hk : ∃ k : Message, method = k.method ∧ k.parses codec payload = true
  · obtain ⟨k, rfl, hparse⟩ := hk
    have hr := @parse_event_parsed codec payload out k hparse
    refine ⟨?_, ⟨fun _ => ⟨k, rfl, hparse⟩, fun _ => hr.recognised⟩, ?_, ?_, fun _ => hr.frame, ?_⟩
    · rw [hr.frame]
      exact ⟨rfl, rfl⟩
    · intro hfalse
      rw [hr.recognised] at hfalse
      cases hfalse
    · intro _ k' hk'
      rw [← Message.method_injective hk']
      exact hr.type_mem
    · constructor
      · intro hend
        have hmem := hr.type_mem
        rw [hend] at hmem
        have hctl : k = .Control := by cases k <;> revert hmem <;> decide
        subst hctl
        obtain ⟨m, hm⟩ := Option.isSome_iff_exists.1 hparse
        rw [control_type hm] at hend
        refine ⟨rfl, m, hm, ?_⟩
        by_contra hno
        rw [if_neg hno] at hend
        cases hend
      · rintro ⟨hctl, m, hm, hact⟩
        rw [hctl, control_type hm, if_pos hact]
  · have hr : parse_event codec method payload out = (unknown_event method payload out, false) := by
      by_cases hm : ∃ k : Message, method = k.method
      · obtain ⟨k, rfl⟩ := hm
        exact parse_event_failed (Bool.eq_false_iff.2 fun h => hk ⟨k, rfl, h⟩)
      · exact parse_event_other fun k h => hm ⟨k, h⟩
    refine ⟨?_, ?_, ?_, ?_, ?_, ?_⟩ <;> rw [hr]
    · exact ⟨rfl, rfl⟩
    · exact ⟨fun h => Bool.noConfusion h, fun h => absurd h hk⟩
    · exact fun _ => rfl
    · exact fun h => Bool.noConfusion h
    · exact fun h => Bool.noConfusion h
    · constructor
      · exact fun h => EventType.noConfusion h
      · rintro ⟨hctl, m, hm, -⟩
        exact absurd ⟨.Control, hctl, Option.isSome_iff_exists.2 ⟨m, hm⟩⟩ hk

end TtLive
