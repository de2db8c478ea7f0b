import Mathlib.Data.List.Basic

/-!
# Byte strings, default parameters and the query encoder (`web_defaults.cpp`)

A `std::string` is the list of its bytes. `lit` writes an ASCII literal. A query is kept as the list of
its parameters next to the URL it is appended to (`UnsignedUrl`); `UnsignedUrl.text` is the string the
code builds from the two.
-/

namespace TtLive

abbrev Bytes := List UInt8

/-- An ASCII string literal. -/
def lit (s : String) : Bytes := s.toList.map fun c => c.toNat.toUInt8

/-- What a C function reads of a string. -/
def c_str (s : Bytes) : Bytes := s.takeWhile (· ≠ 0)

/-- `std::to_string` of an integer. -/
def to_string (n : Int) : Bytes := lit (toString n)

/-- Ordered key/value list (`ParamList`). -/
abbrev ParamList := List (Bytes × Bytes)

/-- The value of the first parameter called `name`. -/
def ParamList.param (ps : ParamList) (name : Bytes) : Option Bytes := ps.lookup name

namespace web_defaults

def kAppUrl : Bytes := lit "https://www.tiktok.com"
def kWebcastUrl : Bytes := lit "https://webcast.tiktok.com/webcast"

/-- Default query parameters of every Webcast REST request. -/
def base_web_params : ParamList := [
  (lit "aid", lit "1988"),
  (lit "app_language", lit "en-US"),
  (lit "app_name", lit "tiktok_web"),
  (lit "browser_language", lit "en-US"),
  (lit "browser_name", lit "Mozilla"),
  (lit "browser_online", lit "true"),
  (lit "browser_platform", lit "Win32"),
  (lit "browser_version", lit "5.0 (Windows NT 10.0; Win64; x64) AppleWebKit/537.36 (KHTML, like Gecko) Chrome/126.0.0.0 Safari/537.36"),
  (lit "cookie_enabled", lit "true"),
  (lit "device_platform", lit "web_pc"),
  (lit "focus_state", lit "true"),
  (lit "from_page", lit "user"),
  (lit "history_len", lit "4"),
  (lit "is_fullscreen", lit "false"),
  (lit "is_page_visible", lit "true"),
  (lit "screen_height", lit "1080"),
  (lit "screen_width", lit "1920"),
  (lit "tz_name", lit "America/New_York"),
  (lit "channel", lit "tiktok_web"),
  (lit "data_collection_enabled", lit "true"),
  (lit "os", lit "windows"),
  (lit "priority_region", lit "US"),
  (lit "region", lit "US"),
  (lit "user_is_login", lit "false"),
  (lit "webcast_language", lit "en-US")]

/-- Default query parameters of the WebSocket connect URL. -/
def base_ws_params : ParamList := [
  (lit "version_code", lit "270000"),
  (lit "device_platform", lit "web"),
  (lit "cookie_enabled", lit "true"),
  (lit "app_name", lit "tiktok_web"),
  (lit "aid", lit "1988"),
  (lit "live_id", lit "12"),
  (lit "identity", lit "audience"),
  (lit "sup_ws_ds_opt", lit "1"),
  (lit "ws_direct", lit "1"),
  (lit "resp_content_type", lit "protobuf"),
  (lit "did_rule", lit "3"),
  (lit "heartbeat_duration", lit "10000"),
  (lit "last_rtt", lit "0"),
  (lit "app_language", lit "en"),
  (lit "webcast_language", lit "en"),
  (lit "client_enter", lit "1"),
  (lit "update_version_code", lit "2.0.0"),
  (lit "browser_name", lit "Mozilla"),
  (lit "browser_online", lit "true")]

/-- RFC 3986 unreserved characters, which are sent as they are. -/
def unreserved (c : UInt8) : Bool :=
  (0x41 ≤ c && c ≤ 0x5a) || (0x61 ≤ c && c ≤ 0x7a) || (0x30 ≤ c && c ≤ 0x39) ||
    c == 0x2d || c == 0x5f || c == 0x2e || c == 0x7e

/-- `"0123456789ABCDEF"[n]`. -/
def hex (n : UInt8) : UInt8 := if n < 10 then 0x30 + n else 0x37 + n

/-- What `append_encoded` appends for one byte. -/
def encode_byte (c : UInt8) : Bytes :=
  if unreserved c then [c] else [0x25, hex (c >>> 4), hex (c &&& 0x0f)]

def append_encoded (out s : Bytes) : Bytes := out ++ s.flatMap encode_byte

def encode_query : ParamList → Bytes
  | [] => []
  | [kv] => append_encoded (append_encoded [] kv.1 ++ lit "=") kv.2
  | kv :: rest => append_encoded (append_encoded [] kv.1 ++ lit "=") kv.2 ++ lit "&" ++ encode_query rest

end web_defaults

/-- A URL before it is signed: the part up to the query, and the query's parameters. -/
structure UnsignedUrl where
  base : Bytes
  params : ParamList

/-- The string that is handed to the signer or to the HTTP client. -/
def UnsignedUrl.text (u : UnsignedUrl) : Bytes := u.base ++ lit "?" ++ web_defaults.encode_query u.params

end TtLive
