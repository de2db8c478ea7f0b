import Mathlib.Data.List.Sort
import TtLive.Proto3

/-!
# `gen_proto.py`: the proto3 file of the event messages

`emit_field`, `emit_enum`, `emit_message` and the parts that `main` joins, over what `collect_types` returns of the
Python classes.
-/

namespace TtLive.gen_proto
open Proto3

/-! ### The classes -/

/-- The annotation of a dataclass field: a text, or a type and its `__name__`. -/
inductive Annotation
  | text (s : Text)
  | type (name : Option Text)

/-- The attributes of a `map_meta`, where it has them. -/
structure MapMeta where
  key_type : Option Text
  value_type : Option Text

structure Metadata where
  number : Nat
  proto_type : Text
  map_meta : Option MapMeta := none
  repeated : Bool := false
  optional : Bool := false
  /-- Empty for no group. -/
  group : Text := []

structure DataField where
  name : Text
  type : Annotation
  metadata : Option Metadata

structure MessageClass where
  name : Text
  fields : List DataField

/-- The names and numbers of an `IntEnum`, as the class body writes them; it writes no name twice. -/
structure EnumClass where
  name : Text
  written : List (Text × Int)
  nodup_names : (written.map Prod.fst).Nodup

/-- `list(cls)`: a later name for the same number is an alias of the first, and no member. -/
def EnumClass.members (c : EnumClass) : List (Text × Int) :=
  c.written.foldl (fun ms m => if m.2 ∈ ms.map Prod.snd then ms else ms ++ [m]) []

/-! ### Python texts -/

/-- `s.replace(old, new)`; `skip` characters belong to an occurrence already replaced. -/
def replace (old new : Text) : (skip : Nat) → Text → Text
  | _, [] => []
  | skip + 1, _ :: s => replace old new skip s
  | 0, c :: s => if old <+: c :: s then new ++ replace old new (old.length - 1) s else c :: replace old new 0 s

def white_space (c : Char) : Bool :=
  c.toNat ∈ [0x09, 0x0a, 0x0b, 0x0c, 0x0d, 0x1c, 0x1d, 0x1e, 0x1f, 0x20, 0x85, 0xa0, 0x1680, 0x2000, 0x2001, 0x2002,
    0x2003, 0x2004, 0x2005, 0x2006, 0x2007, 0x2008, 0x2009, 0x200a, 0x2028, 0x2029, 0x202f, 0x205f, 0x3000]

/-- `s <= t`, by code points. -/
def le : Text → Text → Bool
  | [], _ => true
  | _ :: _, [] => false
  | a :: s, b :: t => if a = b then le s t else a.toNat < b.toNat

/-- `s.split()`. -/
def split (s : Text) : List Text := (s.splitOnP white_space).filter (· ≠ [])

def scalar_map : List Text :=
  ["bool", "int32", "int64", "uint32", "uint64", "sint32", "sint64", "fixed32", "fixed64", "sfixed32", "sfixed64",
    "float", "double", "string", "bytes"].map String.toList

/-! ### Types -/

def wrappers : List Text := ["Optional[", "list[", "List[", "]", "|", "None"].map String.toList

def apostrophe : Char := Char.ofNat 0x27

/-- The annotation without its quotes and wrappers. -/
def cleaned (ann : Text) : Text :=
  wrappers.foldl (fun s token => replace token [' '] 0 s)
    (replace [apostrophe] [] 0 (replace [quote] [] 0 ann))

def candidates (ann : Text) : List Text := split (replace ['.'] [' '] 0 (cleaned ann))

def nested_type_name (field : DataField) (known : List Text) : Text :=
  match field.type with
  | .text ann =>
    match (candidates ann).reverse.find? known.contains with
    | some cand => cand
    | none => (candidates ann).getLast?.getD "bytes".toList
  | .type name => name.getD "bytes".toList

def map_types (km : MapMeta) (field : DataField) (known : List Text) : Text × Text :=
  let key := km.key_type.getD "string".toList
  let value := km.value_type.getD "string".toList
  (if scalar_map.contains key then key else "string".toList,
    if scalar_map.contains value then value else nested_type_name field known)

def type_str (data : Metadata) (field : DataField) (known : List Text) : Text :=
  if scalar_map.contains data.proto_type then data.proto_type
  else if data.proto_type = "message".toList ∨ data.proto_type = "enum".toList then nested_type_name field known
  else "bytes".toList

/-- The type of a field of a `oneof`. -/
def choice_type (data : Metadata) (field : DataField) (known : List Text) : Text :=
  if scalar_map.contains data.proto_type then data.proto_type else nested_type_name field known

/-! ### Lines -/

def opens : Text := [' ', Char.ofNat 0x7b]
def closes : Text := [Char.ofNat 0x7d]

/-- `name = number;`. -/
def numbered (name : Text) (n : Nat) : Text := name ++ " = ".toList ++ decimal n ++ ";".toList

def pre (data : Metadata) : Text :=
  if data.repeated then "repeated ".toList else if data.optional then "optional ".toList else []

def emit_field (field : DataField) (known : List Text) : Text :=
  match field.metadata with
  | none => []
  | some data =>
    match data.map_meta with
    | some km =>
      let types := map_types km field known
      "  map<".toList ++ types.1 ++ ", ".toList ++ types.2 ++ "> ".toList ++ numbered field.name data.number
    | none => "  ".toList ++ pre data ++ type_str data field known ++ " ".toList ++ numbered field.name data.number

def join (lines : List Text) : Text := List.intercalate ['\n'] lines

def integer (n : Int) : Text := if n < 0 then '-' :: decimal n.natAbs else decimal n.natAbs

def unspecified (name : Text) : Text := name.map Char.toUpper ++ "_UNSPECIFIED".toList

/-- A turn of the loop over the members; `lines` and `seen_values`. -/
def emit_member (name : Text) (st : List Text × List Int) (m : Text × Int) : List Text × List Int :=
  let st := if m.2 ∈ st.2 then (st.1.insertIdx 1 "  option allow_alias = true;".toList, -1 :: st.2) else st
  (st.1 ++ ["  ".toList ++ (name ++ "_".toList ++ m.1) ++ " = ".toList ++ integer m.2 ++ ";".toList], m.2 :: st.2)

def enum_lines (cls : EnumClass) : List Text :=
  let lines := ["enum ".toList ++ cls.name ++ opens]
  let lines := if cls.members.any fun m => m.2 = 0 then lines
    else lines ++ ["  ".toList ++ unspecified cls.name ++ " = 0;".toList]
  (cls.members.foldl (emit_member cls.name) (lines, [])).1 ++ [closes]

def emit_enum (cls : EnumClass) : Text := join (enum_lines cls)

/-- `oneofs.setdefault(group, []).append(f)`. -/
def add_choice (oneofs : List (Text × List (Metadata × DataField))) (f : Metadata × DataField) :
    List (Text × List (Metadata × DataField)) :=
  if (oneofs.map Prod.fst).contains f.1.group then
    oneofs.map fun g => if g.1 = f.1.group then (g.1, g.2 ++ [f]) else g
  else oneofs ++ [(f.1.group, [f])]

/-- The fields with metadata. -/
def described (cls : MessageClass) : List (Metadata × DataField) :=
  cls.fields.filterMap fun f => f.metadata.map fun data => (data, f)

def plain (cls : MessageClass) : List (Metadata × DataField) := (described cls).filter fun f => f.1.group = []

def oneofs (cls : MessageClass) : List (Text × List (Metadata × DataField)) :=
  ((described cls).filter fun f => f.1.group ≠ []).foldl add_choice []

def oneof_lines (known : List Text) (g : Text × List (Metadata × DataField)) : List Text :=
  ("  oneof ".toList ++ g.1 ++ opens) ::
    g.2.map (fun f => "    ".toList ++ choice_type f.1 f.2 known ++ " ".toList ++ numbered f.2.name f.1.number) ++
    ["  ".toList ++ closes]

def message_lines (cls : MessageClass) (known : List Text) : List Text :=
  ("message ".toList ++ cls.name ++ opens) ::
    ((plain cls).map fun f => emit_field f.2 known).filter (· ≠ []) ++ (oneofs cls).flatMap (oneof_lines known) ++
    [closes]

def emit_message (cls : MessageClass) (known : List Text) : Text := join (message_lines cls known)

/-- `known`. -/
def known (messages : List MessageClass) (enums : List EnumClass) : List Text :=
  messages.map (·.name) ++ enums.map (·.name)

def sorted_enums (enums : List EnumClass) : List EnumClass := enums.insertionSort fun a b => le a.name b.name

def sorted_messages (messages : List MessageClass) : List MessageClass :=
  messages.insertionSort fun a b => le a.name b.name

def parts (messages : List MessageClass) (enums : List EnumClass) : List Text :=
  ["syntax = ".toList ++ quote :: "proto3".toList ++ quote :: ";".toList, "package tiktok;".toList, [],
    "// AUTO-GENERATED from the TikTokLiveProto v3 betterproto2 package.".toList,
    "// Do not edit by hand; regenerate with tools/gen_proto.py.".toList, []] ++
  (sorted_enums enums).flatMap (fun cls => [emit_enum cls, []]) ++
  (sorted_messages messages).flatMap fun cls => [emit_message cls (known messages enums), []]

/-- What `main` writes to `tiktok.proto`. -/
def generate (messages : List MessageClass) (enums : List EnumClass) : Text := join (parts messages enums)

end TtLive.gen_proto
