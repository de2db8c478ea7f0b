import TtLive.JsonString

/-!
# JSON documents

A `Doc` is a JSON text without insignificant white space whose member names, too, may have escapes. A `Site` is a
member together with the text behind its value, and `Doc.sites` lists them in document order. `Spaced` are the texts
with white space between the tokens.
-/

namespace Json

/-! ### Documents -/

inductive Doc
  | null
  | bool (b : Bool)
  | number (n : Number)
  | string (ps : List Piece)
  | array (ds : List Doc)
  | object (ms : List (List Piece × Doc))

abbrev Member := List Piece × Doc

mutual

def Doc.text : Doc → Text
  | .null => [0x6e, 0x75, 0x6c, 0x6c]
  | .bool true => [0x74, 0x72, 0x75, 0x65]
  | .bool false => [0x66, 0x61, 0x6c, 0x73, 0x65]
  | .number n => n.text
  | .string ps => 0x22 :: body ps ++ [0x22]
  | .array ds => 0x5b :: comma.intercalate (docTexts ds) ++ [0x5d]
  | .object ms => 0x7b :: comma.intercalate (docMemberTexts ms) ++ [0x7d]

def docTexts : List Doc → List Text
  | [] => []
  | d :: ds => d.text :: docTexts ds

def docMemberTexts : List (List Piece × Doc) → List Text
  | [] => []
  | (n, d) :: ms => (0x22 :: body n ++ 0x22 :: 0x3a :: d.text) :: docMemberTexts ms

end

mutual

/-- The members of the objects in a document, at any depth, in document order. -/
def Doc.members : Doc → List Member
  | .array ds => docsMembers ds
  | .object ms => membersMembers ms
  | _ => []

def docsMembers : List Doc → List Member
  | [] => []
  | d :: ds => d.members ++ docsMembers ds

def membersMembers : List (List Piece × Doc) → List Member
  | [] => []
  | (n, d) :: ms => (n, d) :: d.members ++ membersMembers ms

end

/-- A member and the text behind its value. -/
abbrev Site := Member × Text

/-- The sites of a text in a longer one. -/
def behind (t : Text) (ss : List Site) : List Site := ss.map fun s => (s.1, s.2 ++ t)

/-- The texts that follow the first of several texts with commas between them. -/
def continued : List Text → Text
  | [] => []
  | ts => 0x2c :: comma.intercalate ts

mutual

def Doc.sites : Doc → List Site
  | .array ds => behind [0x5d] (docsSites ds)
  | .object ms => behind [0x7d] (membersSites ms)
  | _ => []

def docsSites : List Doc → List Site
  | [] => []
  | d :: ds => behind (continued (docTexts ds)) d.sites ++ docsSites ds

def membersSites : List (List Piece × Doc) → List Site
  | [] => []
  | (n, d) :: ms => behind (continued (docMemberTexts ms)) (((n, d), []) :: d.sites) ++ membersSites ms

end

def Doc.isObject : Doc → Bool
  | .object _ => true
  | _ => false

def Doc.isArray : Doc → Bool
  | .array _ => true
  | _ => false

def Doc.isString : Doc → Bool
  | .string _ => true
  | _ => false

/-- The members of an object. -/
def Doc.entries : Doc → List Member
  | .object ms => ms
  | _ => []

/-- The elements of an array. -/
def Doc.elements : Doc → List Doc
  | .array ds => ds
  | _ => []

/-- The pieces of a string. -/
def Doc.pieces : Doc → List Piece
  | .string ps => ps
  | _ => []

/-- The value of an integer literal. -/
def Number.toInt? (n : Number) : Option Int :=
  if n.frac.isNone && n.exp.isNone then some (if n.neg then -(n.int.value : Int) else n.int.value) else none

/-- The integer that a value is; 0 for any other value. -/
def Doc.toInt : Doc → Int
  | .number n => n.toInt?.getD 0
  | _ => 0

/-- The value of an object's first member of that name. -/
def Doc.own (d : Doc) (name : Text) : Option Doc := (d.entries.find? fun m => decode m.1 = name).map Prod.snd

/-- The value of the first member of that name in document order, at any depth. -/
def Doc.first_named (d : Doc) (name : Text) : Option Doc :=
  (d.members.find? fun m => decode m.1 = name).map Prod.snd

@[elab_as_elim]
theorem Doc.ind {P : Doc → Prop} (null : P .null) (bool : ∀ b, P (.bool b)) (number : ∀ n, P (.number n))
    (string : ∀ ps, P (.string ps)) (array : ∀ ds, (∀ d ∈ ds, P d) → P (.array ds))
    (object : ∀ ms, (∀ m ∈ ms, P m.2) → P (.object ms)) (d : Doc) : P d :=
  @Doc.rec P (fun ds => ∀ d ∈ ds, P d) (fun ms => ∀ m ∈ ms, P m.2) (fun m => P m.2) null bool number string array
    object nofun (fun _ _ hd hds => List.forall_mem_cons.2 ⟨hd, hds⟩) nofun
    (fun _ _ hm hms => List.forall_mem_cons.2 ⟨hm, hms⟩) (fun _ _ hd => hd) d

def docMemberText (m : Member) : Text := 0x22 :: body m.1 ++ 0x22 :: 0x3a :: m.2.text

theorem docTexts_eq (ds : List Doc) : docTexts ds = ds.map Doc.text := by
  induction ds with
  | nil => rfl
  | cons d ds ih => rw [docTexts, ih, List.map_cons]

theorem docMemberTexts_eq (ms : List Member) : docMemberTexts ms = ms.map docMemberText := by
  induction ms with
  | nil => rfl
  | cons m ms ih => rw [docMemberTexts, ih, List.map_cons, docMemberText]

theorem Doc.text_array (ds : List Doc) :
    (Doc.array ds).text = 0x5b :: comma.intercalate (ds.map Doc.text) ++ [0x5d] := by
  rw [Doc.text, docTexts_eq]

theorem Doc.text_object (ms : List Member) :
    (Doc.object ms).text = 0x7b :: comma.intercalate (ms.map docMemberText) ++ [0x7d] := by
  rw [Doc.text, docMemberTexts_eq]

theorem docsMembers_eq (ds : List Doc) : docsMembers ds = ds.flatMap Doc.members := by
  induction ds with
  | nil => rfl
  | cons d ds ih => rw [docsMembers, ih, List.flatMap_cons]

theorem membersMembers_eq (ms : List Member) : membersMembers ms = ms.flatMap fun m => m :: m.2.members := by
  induction ms with
  | nil => rfl
  | cons m ms ih => rw [membersMembers, ih, List.flatMap_cons, List.cons_append]

theorem Doc.members_array (ds : List Doc) : (Doc.array ds).members = ds.flatMap Doc.members := by
  rw [Doc.members, docsMembers_eq]

theorem Doc.members_object (ms : List Member) : (Doc.object ms).members = ms.flatMap fun m => m :: m.2.members := by
  rw [Doc.members, membersMembers_eq]

theorem map_fst_behind (t : Text) (ss : List Site) : (behind t ss).map Prod.fst = ss.map Prod.fst := by
  simp [behind, Function.comp_def]

/-- The sites are the members. -/
theorem Doc.map_fst_sites (d : Doc) : d.sites.map Prod.fst = d.members := by
  induction d using Doc.ind with
  | null => rfl
  | bool b => rfl
  | number n => rfl
  | string ps => rfl
  | array ds ih =>
    rw [Doc.sites, map_fst_behind, Doc.members]
    induction ds with
    | nil => rfl
    | cons d ds ihds =>
      rw [List.forall_mem_cons] at ih
      rw [docsSites, List.map_append, map_fst_behind, ih.1, ihds ih.2, docsMembers]
  | object ms ih =>
    rw [Doc.sites, map_fst_behind, Doc.members]
    induction ms with
    | nil => rfl
    | cons m ms ihms =>
      rw [List.forall_mem_cons] at ih
      rw [membersSites, List.map_append, map_fst_behind, List.map_cons, ih.1, ihms ih.2, membersMembers]

/-- What stands behind the values is put together from nothing, the rests of lists and closing brackets. -/
theorem Doc.forall_sites {P : Text → Prop} (nil : P []) (array_end : ∀ s, P s → P (s ++ [0x5d]))
    (object_end : ∀ s, P s → P (s ++ [0x7d])) (docs : ∀ ds s, P s → P (s ++ continued (docTexts ds)))
    (members : ∀ ms s, P s → P (s ++ continued (docMemberTexts ms))) (d : Doc) : ∀ s ∈ d.sites, P s.2 := by
  have hbehind : ∀ {t : Text} {ss : List Site}, (∀ s, P s → P (s ++ t)) → (∀ s ∈ ss, P s.2) →
      ∀ s ∈ behind t ss, P s.2 := fun ht h => List.forall_mem_map.2 fun s hs => ht _ (h s hs)
  induction d using Doc.ind with
  | null => exact nofun
  | bool b => exact nofun
  | number n => exact nofun
  | string ps => exact nofun
  | array ds ih =>
    refine hbehind array_end ?_
    induction ds with
    | nil => exact nofun
    | cons d ds ihds =>
      rw [List.forall_mem_cons] at ih
      exact List.forall_mem_append.2 ⟨hbehind (docs ds) ih.1, ihds ih.2⟩
  | object ms ih =>
    refine hbehind object_end ?_
    induction ms with
    | nil => exact nofun
    | cons m ms ihms =>
      rw [List.forall_mem_cons] at ih
      have hm : ∀ s ∈ ((m, []) :: m.2.sites : List Site), P s.2 := List.forall_mem_cons.2 ⟨nil, ih.1⟩
      exact List.forall_mem_append.2 ⟨hbehind (members ms) hm, ihms ih.2⟩

/-- What holds of a comma and of two texts one after the other holds of texts with commas between them. -/
theorem intercalate_closed {P : Text → Prop} (nil : P []) (hcomma : P comma)
    (append : ∀ {x y}, P x → P y → P (x ++ y)) {ts : List Text} (h : ∀ t ∈ ts, P t) : P (comma.intercalate ts) := by
  induction ts with
  | nil => exact nil
  | cons t ts ih =>
    rw [List.forall_mem_cons] at h
    cases ts with
    | nil =>
      rw [List.intercalate_singleton]
      exact h.1
    | cons u us =>
      rw [List.intercalate_cons_cons]
      exact append (append h.1 hcomma) (ih h.2)

/-! ### Values as documents -/

def Name.pieces (n : Name) : List Piece := n.chars.attach.map fun c => .plain c.1 (n.plain c.1 c.2)

theorem Name.body_pieces (n : Name) : body n.pieces = n.chars := by
  rw [body, Name.pieces, List.flatMap_map]
  show n.chars.attach.flatMap (fun c => [c.1]) = n.chars
  rw [← List.map_eq_flatMap]
  exact List.attach_map_subtype_val n.chars

mutual

def Value.doc : Value → Doc
  | .null => .null
  | .bool b => .bool b
  | .number n => .number n
  | .string ps => .string ps
  | .array vs => .array (elementDocs vs)
  | .object ms => .object (memberDocs ms)

def elementDocs : List Value → List Doc
  | [] => []
  | v :: vs => v.doc :: elementDocs vs

def memberDocs : List (Name × Value) → List Member
  | [] => []
  | (n, v) :: ms => (n.pieces, v.doc) :: memberDocs ms

end

theorem elementDocs_eq (vs : List Value) : elementDocs vs = vs.map Value.doc := by
  induction vs with
  | nil => rfl
  | cons v vs ih => rw [elementDocs, ih, List.map_cons]

theorem memberDocs_eq (ms : List (Name × Value)) : memberDocs ms = ms.map fun m => (m.1.pieces, m.2.doc) := by
  induction ms with
  | nil => rfl
  | cons m ms ih => rw [memberDocs, ih, List.map_cons]

theorem Value.doc_text (v : Value) : v.doc.text = v.text := by
  induction v using Value.ind with
  | null => rfl
  | bool b => cases b <;> rfl
  | number n => rfl
  | string ps => rfl
  | array vs ih =>
    rw [Value.doc, elementDocs_eq, Doc.text_array, Json.text_array, List.map_map]
    have hvs : vs.map (Doc.text ∘ Value.doc) = vs.map Value.text := List.map_congr_left ih
    rw [hvs]
  | object ms ih =>
    rw [Value.doc, memberDocs_eq, Doc.text_object, Json.text_object, List.map_map]
    have hms : ms.map (docMemberText ∘ fun m => (m.1.pieces, m.2.doc)) = ms.map memberText :=
      List.map_congr_left fun m hm => by simp [docMemberText, memberText, Name.body_pieces, ih m hm]
    rw [hms]

theorem Value.doc_members (v : Value) : v.doc.members = v.members.map fun m => (m.1.pieces, m.2.doc) := by
  induction v using Value.ind with
  | null => rfl
  | bool b => rfl
  | number n => rfl
  | string ps => rfl
  | array vs ih =>
    rw [Value.doc, elementDocs_eq, Doc.members_array, Json.members_array, List.flatMap_map, List.map_flatMap]
    exact List.flatMap_congr ih
  | object ms ih =>
    rw [Value.doc, memberDocs_eq, Doc.members_object, Json.members_object, List.flatMap_map, List.map_flatMap]
    exact List.flatMap_congr fun m hm => congrArg (_ :: ·) (ih m hm)

/-- A name without escapes. -/
def plain_name (t : Text) (h : (t.all fun c => Plain c) = true) : Name :=
  ⟨t, fun c hc => of_decide_eq_true (List.all_eq_true.1 h c hc)⟩

/-- `\"`. -/
def escaped_quote : Piece := .short 0x22 (by decide)

/-! ### White space -/

def Space (s : Text) : Prop := ∀ c ∈ s, c ∈ [0x20, 0x09, 0x0a, 0x0d]

/-- An element of an array, or the value of a member, with the white space around it. -/
structure Item where
  before : Text
  value : Text
  after : Text

def Item.text (i : Item) : Text := i.before ++ (i.value ++ i.after)

def Item.Spaces (i : Item) : Prop := Space i.before ∧ Space i.after

/-- A member with the white space around its name. -/
structure Entry where
  before : Text
  name : List Piece
  after : Text
  item : Item

def Entry.text (e : Entry) : Text := e.before ++ (0x22 :: body e.name ++ [0x22]) ++ (e.after ++ 0x3a :: e.item.text)

def Entry.Spaces (e : Entry) : Prop := Space e.before ∧ Space e.after ∧ e.item.Spaces

/-- Well-formed texts, with white space between their tokens. -/
inductive Spaced : Text → Prop
  | null : Spaced Doc.null.text
  | bool (b : Bool) : Spaced (Doc.bool b).text
  | number (n : Number) : Spaced n.text
  | string (ps : List Piece) : Spaced (0x22 :: body ps ++ [0x22])
  | empty_array (w : Text) (hw : Space w) : Spaced (0x5b :: w ++ [0x5d])
  | array (is : List Item) (hs : ∀ i ∈ is, i.Spaces) (hv : ∀ i ∈ is, Spaced i.value) :
    Spaced (0x5b :: comma.intercalate (is.map Item.text) ++ [0x5d])
  | empty_object (w : Text) (hw : Space w) : Spaced (0x7b :: w ++ [0x7d])
  | object (es : List Entry) (hs : ∀ e ∈ es, e.Spaces) (hv : ∀ e ∈ es, Spaced e.item.value) :
    Spaced (0x7b :: comma.intercalate (es.map Entry.text) ++ [0x7d])

/-- A document is a text without white space. -/
theorem Doc.spaced (d : Doc) : Spaced d.text := by
  have hnil : Space [] := nofun
  induction d using Doc.ind with
  | null => exact .null
  | bool b => exact .bool b
  | number n => exact .number n
  | string ps => exact .string ps
  | array ds ih =>
    have h := Spaced.array (ds.map fun d => ⟨[], d.text, []⟩) (List.forall_mem_map.2 fun d _ => ⟨hnil, hnil⟩)
      (List.forall_mem_map.2 ih)
    rw [List.map_map] at h
    rw [Doc.text_array]
    simpa [Function.comp_def, Item.text] using h
  | object ms ih =>
    have h := Spaced.object (ms.map fun m => ⟨[], m.1, [], [], m.2.text, []⟩)
      (List.forall_mem_map.2 fun m _ => ⟨hnil, hnil, hnil, hnil⟩) (List.forall_mem_map.2 ih)
    have htext : ms.map docMemberText = (ms.map fun m => (⟨[], m.1, [], [], m.2.text, []⟩ : Entry)).map Entry.text := by
      simp [Function.comp_def, Entry.text, Item.text, docMemberText]
    rw [Doc.text_object, htext]
    exact h

end Json
