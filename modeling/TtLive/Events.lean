import TtLive.WebDefaults

/-!
# Events, and the protobuf messages they are made from

The public structures of `events.hpp`, and of every protobuf message of `tiktok.proto` the fields that
the client reads. A message field is present (`has_…`) exactly when its `Option` is `some`; where the code
reads a submessage without asking, an absent one reads as the default value, as in protobuf.
-/

namespace TtLive

/-! ### `events.hpp` -/

structure StreamQuality where
  quality : Bytes := []
  label : Bytes := []
  flv_url : Bytes := []
  hls_url : Bytes := []
deriving DecidableEq, Repr, Inhabited

structure StreamInfo where
  default_quality : Bytes := []
  qualities : List StreamQuality := []
  rtmp_pull_url : Bytes := []
deriving DecidableEq, Repr, Inhabited

structure User where
  id : Int := 0
  unique_id : Bytes := []
  nickname : Bytes := []
  verified : Bool := false
  avatar_url : Bytes := []
deriving DecidableEq, Repr, Inhabited

structure GiftInfo where
  id : Int := 0
  name : Bytes := []
  diamond_count : Int := 0
  describe : Bytes := []
  type : Int := 0
  icon_url : Bytes := []
deriving DecidableEq, Repr, Inhabited

inductive EventType
  | Connect
  | Disconnect
  | Comment
  | Gift
  | Like
  | Join
  | Follow
  | Share
  | Subscribe
  | RoomUserSeq
  | Control
  | LiveEnd
  | Unknown
deriving DecidableEq, Repr, Inhabited

structure Event where
  type : EventType := .Unknown
  method : Bytes := []
  msg_id : Int := 0
  user : User := {}
  comment : Bytes := []
  gift_id : Int := 0
  gift_name : Bytes := []
  repeat_count : Int := 0
  gift_streaking : Bool := false
  diamond_count : Int := 0
  gift_type : Int := 0
  gift_icon_url : Bytes := []
  like_count : Int := 0
  total_likes : Int := 0
  member_count : Int := 0
  viewer_count : Int := 0
  control_action : Int := 0
  unique_id : Bytes := []
  room_id : Int := 0
  stream : StreamInfo := {}
  raw_payload : Bytes := []
deriving DecidableEq, Repr, Inhabited

/-! ### `tiktok.proto`: the envelope -/

structure BaseProtoMessage where
  method : Bytes := []
  payload : Bytes := []
  msg_id : Int := 0
deriving DecidableEq, Repr, Inhabited

structure ProtoMessageFetchResult where
  messages : List BaseProtoMessage := []
  cursor : Bytes := []
  fetch_interval : Int := 0
  internal_ext : Bytes := []
  need_ack : Bool := false
deriving DecidableEq, Repr, Inhabited

structure PushHeader where
  key : Bytes := []
  value : Bytes := []
deriving DecidableEq, Repr, Inhabited

structure WebcastPushFrame where
  log_id : Int := 0
  headers : List PushHeader := []
  payload_encoding : Bytes := []
  payload_type : Bytes := []
  payload : Bytes := []
deriving DecidableEq, Repr, Inhabited

structure WebcastImEnterRoomMessage where
  room_id : Int := 0
  identity : Bytes := []
  cursor : Bytes := []
deriving DecidableEq, Repr, Inhabited

structure HeartBeatMessage where
  room_id : Int := 0
  send_packet_seq_id : Int := 0
deriving DecidableEq, Repr, Inhabited

/-! ### `tiktok.proto`: the eight modelled messages -/

structure ImageModel where
  url_list : List Bytes := []
deriving DecidableEq, Repr, Inhabited

/-- `tiktok::User`. -/
structure ProtoUser where
  id : Int := 0
  nickname : Bytes := []
  avatar_thumb : Option ImageModel := none
  avatar_medium : Option ImageModel := none
  verified : Bool := false
  display_id : Bytes := []
deriving DecidableEq, Repr, Inhabited

/-- `tiktok::Gift`. -/
structure ProtoGift where
  image : Option ImageModel := none
  type : Int := 0
  diamond_count : Int := 0
  name : Bytes := []
  icon : Option ImageModel := none
deriving DecidableEq, Repr, Inhabited

structure WebcastChatMessage where
  user : ProtoUser := {}
  content : Bytes := []
deriving DecidableEq, Repr, Inhabited

structure WebcastGiftMessage where
  gift_id : Int := 0
  repeat_count : Int := 0
  user : ProtoUser := {}
  repeat_end : Int := 0
  gift : Option ProtoGift := none
deriving DecidableEq, Repr, Inhabited

structure WebcastLikeMessage where
  count : Int := 0
  total : Int := 0
  user : ProtoUser := {}
deriving DecidableEq, Repr, Inhabited

structure WebcastMemberMessage where
  user : ProtoUser := {}
  member_count : Int := 0
deriving DecidableEq, Repr, Inhabited

structure WebcastSocialMessage where
  user : ProtoUser := {}
  share_type : Int := 0
  action : Int := 0
  follow_count : Int := 0
deriving DecidableEq, Repr, Inhabited

structure WebcastRoomUserSeqMessage where
  total : Int := 0
deriving DecidableEq, Repr, Inhabited

structure WebcastSubNotifyMessage where
  user : ProtoUser := {}
deriving DecidableEq, Repr, Inhabited

structure WebcastControlMessage where
  action : Int := 0
deriving DecidableEq, Repr, Inhabited

/-- The code generated by `protoc` from `tiktok.proto`: which byte strings parse as which message, and
the serialised form of the messages the client sends. -/
structure Codec where
  fetch_result : Bytes → Option ProtoMessageFetchResult
  push_frame : Bytes → Option WebcastPushFrame
  chat : Bytes → Option WebcastChatMessage
  gift : Bytes → Option WebcastGiftMessage
  like : Bytes → Option WebcastLikeMessage
  member : Bytes → Option WebcastMemberMessage
  social : Bytes → Option WebcastSocialMessage
  room_user_seq : Bytes → Option WebcastRoomUserSeqMessage
  sub_notify : Bytes → Option WebcastSubNotifyMessage
  control : Bytes → Option WebcastControlMessage
  enter_room_bytes : WebcastImEnterRoomMessage → Bytes
  heartbeat_bytes : HeartBeatMessage → Bytes

end TtLive
