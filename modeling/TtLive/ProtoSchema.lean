import TtLive.TypeReferences

/-!
# The schema that the classes describe

What a `.proto` file of the classes should say, from their attributes alone: which type a field has, in which order
fields, groups and declarations stand. `DescribedFile` is compared with the file that the generator writes.
-/

namespace TtLive.gen_proto
open Proto3

/-- The annotation names the class `x`: as a type, or in a text in which `x` has its place between separators. -/
def Annotation.NamesClass (classes : List Text) : Annotation → Text → Prop
  | .text ann, x => x ∈ classes ∧ ¬ "None".toList <:+: x ∧ Names (unquoted ann) x
  | .type name, x => x ∈ classes ∧ name = some x

/-- The type of a `proto_type`: a scalar is itself, and for any other the annotation names the class. -/
inductive TypeOf (classes : List Text) (type : Annotation) : (proto_type t : Text) → Prop
  | scalar {t} (h : t ∈ scalar_map) : TypeOf classes type t t
  | named {p x} (h : p ∉ scalar_map) (hx : type.NamesClass classes x) : TypeOf classes type p x

/-- The types whose annotation counts outside of a group. -/
def references : List Text := ["message".toList, "enum".toList]

/-- The type of a field outside of a group: of a map the key is a scalar, and what is no known `proto_type` is bytes. -/
def PlainType (classes : List Text) (f : DataField) (data : Metadata) : FieldType → Prop
  | .map key value => ∃ km, data.map_meta = some km ∧ TypeOf classes f.type (km.value_type.getD "string".toList) value ∧
    key ∈ scalar_map ∧ (km.key_type = some key ∨ (∀ k ∈ km.key_type, k ∉ scalar_map) ∧ key = "string".toList)
  | .named t => data.map_meta = none ∧
    ((data.proto_type ∈ scalar_map ∨ data.proto_type ∈ references) ∧ TypeOf classes f.type data.proto_type t ∨
      (data.proto_type ∉ scalar_map ∧ data.proto_type ∉ references) ∧ t = "bytes".toList)

/-- The label of a field; a map has none. -/
def LabelOf (data : Metadata) (l : Label) : Prop :=
  if data.map_meta.isSome then l = .none
  else l = if data.repeated then .repeated else if data.optional then .optional else .none

def DescribedField (classes : List Text) (f : DataField) (p : Proto3.Field) : Prop :=
  ∃ data, f.metadata = some data ∧ p.name = f.name ∧ p.number = data.number ∧ LabelOf data p.label ∧
    PlainType classes f data p.type

def DescribedChoice (classes : List Text) (f : DataField) (c : Choice) : Prop :=
  ∃ data, f.metadata = some data ∧ c.name = f.name ∧ c.number = data.number ∧
    TypeOf classes f.type data.proto_type c.type

/-- The group of a field that the schema has; empty for no group. -/
def DataField.group (f : DataField) : Option Text := f.metadata.map (·.group)

/-- A message: its fields without a group, and behind them each group once, by its first field. -/
def DescribedMessage (classes : List Text) (cls : MessageClass) (d : Decl) : Prop :=
  ∃ (fields : List Proto3.Field) (groups : List (Text × List Choice)),
    d = .message cls.name (fields.map .field ++ groups.map fun g => .oneof g.1 g.2) ∧
      List.Forall₂ (DescribedField classes) (cls.fields.filter fun f => f.group = some []) fields ∧
        groups.map Prod.fst = ((cls.fields.filterMap DataField.group).filter (· ≠ [])).eraseDups ∧
          ∀ g ∈ groups, List.Forall₂ (DescribedChoice classes) (cls.fields.filter fun f => f.group = some g.1) g.2

/-- An enumeration: its members under names with a prefix, behind a zero where no member is zero. -/
def DescribedEnum (cls : EnumClass) (d : Decl) : Prop :=
  ∃ zero : List Value,
    d = .enum cls.name false (zero ++ cls.members.map fun m => ⟨cls.name ++ '_' :: m.1, m.2⟩) ∧
      ((∃ m ∈ cls.members, m.2 = 0) → zero = []) ∧
        ((∀ m ∈ cls.members, m.2 ≠ 0) → zero = [⟨cls.name.map Char.toUpper ++ "_UNSPECIFIED".toList, 0⟩])

/-- One package, with the enumerations and then the messages, each once and in the order of their names. -/
structure DescribedFile (messages : List MessageClass) (enums : List EnumClass) (f : File) : Prop where
  package : f.package = "tiktok".toList
  decls : ∃ es ms enum_decls message_decls, f.decls = enum_decls ++ message_decls ∧
    (es.Perm enums ∧ es.Pairwise (fun a b => le a.name b.name = true) ∧ List.Forall₂ DescribedEnum es enum_decls) ∧
      ms.Perm messages ∧ ms.Pairwise (fun a b => le a.name b.name = true) ∧
        List.Forall₂ (DescribedMessage (messages.map (·.name) ++ enums.map (·.name))) ms message_decls

/-- Whether the type of a field is left to its annotation. -/
def Metadata.Refers (data : Metadata) : Prop :=
  if data.group = [] then
    match data.map_meta with
    | some km => km.value_type.getD "string".toList ∉ scalar_map
    | none => data.proto_type ∈ references
  else data.proto_type ∉ scalar_map

def part_of_ident (s : Text) : Bool := s.all fun c => c.isAlphanum || c = '_'

/-- The classes have names that proto3 can spell, and every field's type is a scalar or one of the classes. -/
structure Describable (messages : List MessageClass) (enums : List EnumClass) : Prop where
  classes : ∀ x ∈ messages.map (·.name) ++ enums.map (·.name), ident x = true ∧ x ∉ keywords
  values : ∀ cls ∈ enums, ∀ m ∈ cls.members, part_of_ident m.1 = true
  names : ∀ cls ∈ messages, ∀ f ∈ cls.fields, f.metadata.isSome → ident f.name = true
  groups : ∀ cls ∈ messages, ∀ f ∈ cls.fields, ∀ g ∈ f.group, g ≠ [] → ident g = true
  types : ∀ cls ∈ messages, ∀ f ∈ cls.fields, ∀ data ∈ f.metadata, data.Refers →
    ∃ x, f.type.NamesClass (messages.map (·.name) ++ enums.map (·.name)) x

/-! ### What the generator's functions give -/

section
variable {classes : List Text} {f : DataField} {data : Metadata} {x : Text}

theorem nested_type_name_class (hclasses : ∀ x ∈ classes, ident x = true ∧ x ∉ keywords)
    (h : f.type.NamesClass classes x) : nested_type_name f classes = x := by
  rcases htype : f.type with ann | name
  · rw [htype] at h
    exact nested_type_name_names htype (hclasses x h.1).1 h.1 h.2.1 h.2.2
  · rw [htype] at h
    rw [nested_type_name, htype, h.2]
    rfl

theorem type_of_named (hclasses : ∀ x ∈ classes, ident x = true ∧ x ∉ keywords) {p : Text} (hp : p ∉ scalar_map)
    (h : ∃ x, f.type.NamesClass classes x) : TypeOf classes f.type p (nested_type_name f classes) := by
  obtain ⟨x, hx⟩ := h
  rw [nested_type_name_class hclasses hx]
  exact .named hp hx

theorem choice_type_described (hclasses : ∀ x ∈ classes, ident x = true ∧ x ∉ keywords) (hgroup : data.group ≠ [])
    (h : data.Refers → ∃ x, f.type.NamesClass classes x) :
    TypeOf classes f.type data.proto_type (choice_type data f classes) := by
  rw [Metadata.Refers, if_neg hgroup] at h
  unfold choice_type
  split
  · next hscalar => exact .scalar (List.contains_iff_mem.1 hscalar)
  · next hscalar =>
    have hnot : data.proto_type ∉ scalar_map := fun hmem => hscalar (List.contains_iff_mem.2 hmem)
    exact type_of_named hclasses hnot (h hnot)

theorem type_str_described (hclasses : ∀ x ∈ classes, ident x = true ∧ x ∉ keywords) (hgroup : data.group = [])
    (hmap : data.map_meta = none) (h : data.Refers → ∃ x, f.type.NamesClass classes x) :
    PlainType classes f data (.named (type_str data f classes)) := by
  rw [Metadata.Refers, if_pos hgroup, hmap] at h
  refine ⟨hmap, ?_⟩
  unfold type_str
  split
  · next hscalar =>
    have hmem := List.contains_iff_mem.1 hscalar
    exact .inl ⟨.inl hmem, .scalar hmem⟩
  · next hscalar =>
    have hnot : data.proto_type ∉ scalar_map := fun hmem => hscalar (List.contains_iff_mem.2 hmem)
    split
    · next hname =>
      have href : data.proto_type ∈ references := by simpa [references] using hname
      exact .inl ⟨.inr href, type_of_named hclasses hnot (h href)⟩
    · next hname => exact .inr ⟨⟨hnot, by simpa [references] using hname⟩, rfl⟩

theorem map_types_described (hclasses : ∀ x ∈ classes, ident x = true ∧ x ∉ keywords) (hgroup : data.group = [])
    {km : MapMeta} (hmap : data.map_meta = some km) (h : data.Refers → ∃ x, f.type.NamesClass classes x) :
    PlainType classes f data (.map (map_types km f classes).1 (map_types km f classes).2) := by
  rw [Metadata.Refers, if_pos hgroup, hmap] at h
  refine ⟨km, hmap, ?_, ?_⟩
  · show TypeOf classes f.type _ (ite _ _ _)
    split
    · next hscalar => exact .scalar (List.contains_iff_mem.1 hscalar)
    · next hscalar =>
      have hnot : km.value_type.getD "string".toList ∉ scalar_map := fun hmem => hscalar (List.contains_iff_mem.2 hmem)
      exact type_of_named hclasses hnot (h hnot)
  · have hstring : "string".toList ∈ scalar_map := by decide
    show ite _ _ _ ∈ scalar_map ∧ (_ = some (ite _ _ _) ∨ _ ∧ ite _ _ _ = _)
    rcases km.key_type with _ | key
    · exact ⟨hstring, .inr ⟨nofun, rfl⟩⟩
    · rw [Option.getD_some]
      split
      · next hscalar => exact ⟨List.contains_iff_mem.1 hscalar, .inl rfl⟩
      · next hscalar =>
        refine ⟨hstring, .inr ⟨?_, rfl⟩⟩
        rintro _ ⟨⟩ hmem
        exact hscalar (List.contains_iff_mem.2 hmem)

end

end TtLive.gen_proto
