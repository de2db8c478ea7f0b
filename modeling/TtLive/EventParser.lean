import TtLive.Events

/-! # `event_parser.cpp`: a Webcast message as an event -/

namespace TtLive

def fill_user (u : ProtoUser) (out : User) : User :=
  let out := { out with
    id := u.id, unique_id := u.display_id, nickname := u.nickname, verified := u.verified }
  match u.avatar_thumb, u.avatar_medium with
  | some ⟨url :: _⟩, _ => { out with avatar_url := url }
  | _, some ⟨url :: _⟩ => { out with avatar_url := url }
  | _, _ => out

/-- The fields `parse_event` takes from the embedded `Gift`. -/
def fill_gift (g : ProtoGift) (out : Event) : Event :=
  let out := { out with gift_name := g.name, diamond_count := g.diamond_count, gift_type := g.type }
  match g.image, g.icon with
  | some ⟨url :: _⟩, _ => { out with gift_icon_url := url }
  | _, some ⟨url :: _⟩ => { out with gift_icon_url := url }
  | _, _ => out

/-- `parse_event(method, payload, out)`: the event, and whether the message was recognised. -/
def parse_event (codec : Codec) (method payload : Bytes) (out : Event) : Event × Bool :=
  let out := { out with method := method, raw_payload := payload }
  let unknown := ({ out with type := .Unknown }, false)
  if method = lit "WebcastChatMessage" then
    match codec.chat payload with
    | some m => ({ out with type := .Comment, user := fill_user m.user out.user, comment := m.content }, true)
    | none => unknown
  else if method = lit "WebcastGiftMessage" then
    match codec.gift payload with
    | some m =>
      let out := { out with
        type := .Gift, user := fill_user m.user out.user, gift_id := m.gift_id,
        repeat_count := m.repeat_count, gift_streaking := m.repeat_end == 0 }
      match m.gift with
      | some g => (fill_gift g out, true)
      | none => (out, true)
    | none => unknown
  else if method = lit "WebcastLikeMessage" then
    match codec.like payload with
    | some m =>
      ({ out with
        type := .Like, user := fill_user m.user out.user, like_count := m.count,
        total_likes := m.total }, true)
    | none => unknown
  else if method = lit "WebcastMemberMessage" then
    match codec.member payload with
    | some m =>
      ({ out with
        type := .Join, user := fill_user m.user out.user, member_count := m.member_count }, true)
    | none => unknown
  else if method = lit "WebcastSocialMessage" then
    match codec.social payload with
    | some m =>
      ({ out with
        type := if m.action = 3 ∨ m.share_type ≠ 0 then .Share else .Follow,
        user := fill_user m.user out.user, member_count := m.follow_count }, true)
    | none => unknown
  else if method = lit "WebcastRoomUserSeqMessage" then
    match codec.room_user_seq payload with
    | some m => ({ out with type := .RoomUserSeq, viewer_count := m.total }, true)
    | none => unknown
  else if method = lit "WebcastSubNotifyMessage" then
    match codec.sub_notify payload with
    | some m => ({ out with type := .Subscribe, user := fill_user m.user out.user }, true)
    | none => unknown
  else if method = lit "WebcastControlMessage" then
    match codec.control payload with
    | some m =>
      ({ out with
        control_action := m.action,
        type := if m.action = 3 ∨ m.action = 4 then .LiveEnd else .Control }, true)
    | none => unknown
  else unknown

/-- No server message becomes a `Connect` or a `Disconnect` event. -/
theorem parse_event_type (codec : Codec) (method payload : Bytes) (out : Event) :
    (parse_event codec method payload out).1.type ≠ .Connect ∧
      (parse_event codec method payload out).1.type ≠ .Disconnect := by
  have hg : ∀ g (e : Event), (fill_gift g e).type = e.type := by
    intro g e; unfold fill_gift; dsimp only; split <;> rfl
  unfold parse_event
  dsimp only
  repeat' split
  all_goals simp [hg]

/-- The id of the event is the caller's. -/
theorem parse_event_msg_id (codec : Codec) (method payload : Bytes) (out : Event) :
    (parse_event codec method payload out).1.msg_id = out.msg_id := by
  have hg : ∀ g (e : Event), (fill_gift g e).msg_id = e.msg_id := by
    intro g e; unfold fill_gift; dsimp only; split <;> rfl
  unfold parse_event
  dsimp only
  repeat' split
  all_goals simp [hg]

end TtLive
