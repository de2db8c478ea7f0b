import TtLive.OrderedForest

/-!
# `hybrid-fake-dom.js`: the tree of the fake elements

A `FakeElement` keeps its children in two arrays and its parent in two members, and its methods do not look for a node
anywhere else. `tree_iff` says for which histories of calls that is a document tree: those in which no call moves a node
that has a parent, inserts before a node, or replaces a child that is not the last one. A node that is taken out of the
tree keeps the parent that it was given last.
-/

namespace TtLive.fake_dom
open Function (update)

structure FakeElement (Node : Type) where
  children : List Node := []
  childNodes : List Node := []
  parentNode : Option Node := none
  parentElement : Option Node := none

/-- A call on an element, with the element. -/
inductive TreeCall (Node : Type)
  | appendChild (el child : Node)
  | removeChild (el child : Node)
  | insertBefore (el newChild : Node) (ref : Option Node)
  | replaceChild (el newChild oldChild : Node)
  | remove (el : Node)

/-- The elements, by their identity. -/
abbrev Elements (Node : Type) := Node → FakeElement Node

namespace Elements

variable {Node : Type} [DecidableEq Node]

def appendChild (h : Elements Node) (el child : Node) : Elements Node :=
  let h := update h el { h el with children := (h el).children ++ [child], childNodes := (h el).childNodes ++ [child] }
  update h child { h child with parentNode := some el, parentElement := some el }

def removeChild (h : Elements Node) (el child : Node) : Elements Node :=
  update h el { h el with
    children := (h el).children.filter (· ≠ child), childNodes := (h el).childNodes.filter (· ≠ child) }

def insertBefore (h : Elements Node) (el newChild : Node) (_ref : Option Node) : Elements Node :=
  h.appendChild el newChild

def replaceChild (h : Elements Node) (el newChild oldChild : Node) : Elements Node :=
  (h.removeChild el oldChild).appendChild el newChild

def remove (h : Elements Node) (el : Node) : Elements Node :=
  match (h el).parentNode with
  | none => h
  | some p => h.removeChild p el

def step (h : Elements Node) : TreeCall Node → Elements Node
  | .appendChild el child => h.appendChild el child
  | .removeChild el child => h.removeChild el child
  | .insertBefore el newChild ref => h.insertBefore el newChild ref
  | .replaceChild el newChild oldChild => h.replaceChild el newChild oldChild
  | .remove el => h.remove el

section
variable (h : Elements Node) (el child q : Node)

theorem appendChild_apply : h.appendChild el child q =
    { children := if q = el then (h q).children ++ [child] else (h q).children
      childNodes := if q = el then (h q).childNodes ++ [child] else (h q).childNodes
      parentNode := if q = child then some el else (h q).parentNode
      parentElement := if q = child then some el else (h q).parentElement } := by
  unfold appendChild
  by_cases hq : q = child
  · subst hq
    rw [Function.update_self, Function.update_apply, if_pos rfl, if_pos rfl]
    split_ifs with hel
    · rw [hel]
    · rfl
  · rw [Function.update_of_ne hq, Function.update_apply, if_neg hq, if_neg hq]
    split_ifs with hel
    · rw [hel]
    · rfl

theorem children_appendChild : (h.appendChild el child q).children =
    if q = el then (h q).children ++ [child] else (h q).children :=
  congrArg FakeElement.children (appendChild_apply h el child q)

theorem childNodes_appendChild : (h.appendChild el child q).childNodes =
    if q = el then (h q).childNodes ++ [child] else (h q).childNodes :=
  congrArg FakeElement.childNodes (appendChild_apply h el child q)

theorem removeChild_apply : h.removeChild el child q =
    { h q with
      children := if q = el then (h q).children.filter (· ≠ child) else (h q).children
      childNodes := if q = el then (h q).childNodes.filter (· ≠ child) else (h q).childNodes } := by
  unfold removeChild
  rw [Function.update_apply]
  split_ifs with hel
  · rw [hel]
  · rfl

theorem children_removeChild : (h.removeChild el child q).children =
    if q = el then (h q).children.filter (· ≠ child) else (h q).children :=
  congrArg FakeElement.children (removeChild_apply h el child q)

theorem childNodes_removeChild : (h.removeChild el child q).childNodes =
    if q = el then (h q).childNodes.filter (· ≠ child) else (h q).childNodes :=
  congrArg FakeElement.childNodes (removeChild_apply h el child q)

end

end Elements

/-! ### The document tree -/

section
variable {Node : Type} [DecidableEq Node]

/-- What a call does to a document. -/
def document_step (t : Forest Node) : TreeCall Node → Forest Node
  | .appendChild el child => t.insertBefore el child none
  | .removeChild el child => t.removeChild el child
  | .insertBefore el newChild ref => t.insertBefore el newChild ref
  | .replaceChild el newChild oldChild => t.replaceChild el newChild oldChild
  | .remove el => t.detach el

/-- A document does not refuse the call: the child that it names is there. -/
def Legal (t : Forest Node) : TreeCall Node → Prop
  | .removeChild el child => child ∈ t.children el
  | .insertBefore el _ ref => ∀ r, ref = some r → r ∈ t.children el
  | .replaceChild el _ oldChild => oldChild ∈ t.children el
  | .appendChild _ _ | .remove _ => True

/-- The call moves no node that has a parent, and adds at the end. -/
def InPlace (t : Forest Node) : TreeCall Node → Prop
  | .appendChild _ child => t.Detached child
  | .insertBefore _ newChild ref => ref = none ∧ t.Detached newChild
  | .replaceChild el newChild oldChild =>
    (t.children el).getLast? = some oldChild ∧ (newChild = oldChild ∨ t.Detached newChild)
  | .removeChild _ _ | .remove _ => True

/-- The elements are the tree, but for the parents of nodes that have none in it. -/
structure Shows (h : Elements Node) (t : Forest Node) : Prop where
  children : ∀ p, (h p).children = t.children p
  childNodes : ∀ p, (h p).childNodes = t.children p
  parent : ∀ p c, c ∈ t.children p → (h c).parentNode = some p ∧ (h c).parentElement = some p

variable {h : Elements Node} {t : Forest Node}

omit [DecidableEq Node] in
theorem shows_init : Shows (fun _ => {} : Elements Node) {} :=
  ⟨fun _ => rfl, fun _ => rfl, fun _ _ hc => absurd hc List.not_mem_nil⟩

theorem Shows.children_appendChild (hs : Shows h t) (el child q : Node) : (h.appendChild el child q).children =
    if q = el then t.children el ++ [child] else t.children q := by
  rw [Elements.children_appendChild, hs.children]
  split_ifs with hq
  · rw [hq]
  · rfl

theorem Shows.children_removeChild (hs : Shows h t) (el child q : Node) : (h.removeChild el child q).children =
    if q = el then (t.children el).filter (· ≠ child) else t.children q := by
  rw [Elements.children_removeChild, hs.children]
  split_ifs with hq
  · rw [hq]
  · rfl

/-- A node with no parent is appended. -/
theorem Shows.append (hs : Shows h t) {el child : Node} {t' : Forest Node} (hd : ∀ p, child ∈ t'.children p → p = el)
    (hchildren : ∀ q, t'.children q = if q = el then t.children el ++ [child] else t.children q) :
    Shows (h.appendChild el child) t' where
  children q := by rw [hs.children_appendChild, hchildren]
  childNodes q := by
    rw [Elements.childNodes_appendChild, hchildren, hs.childNodes]
    split_ifs with hq
    · rw [hq]
    · rfl
  parent p c hc := by
    rw [Elements.appendChild_apply]
    by_cases hcc : c = child
    · rw [hd p (hcc ▸ hc), if_pos hcc, if_pos hcc]
      exact ⟨rfl, rfl⟩
    · rw [if_neg hcc, if_neg hcc]
      refine hs.parent p c ?_
      rw [hchildren] at hc
      split_ifs at hc with hp
      · rw [hp]
        exact (List.mem_append.1 hc).resolve_right fun h => hcc (List.mem_singleton.1 h)
      · exact hc

theorem Shows.remove_at (hs : Shows h t) {el child : Node} {t' : Forest Node}
    (hchildren : ∀ q, t'.children q = if q = el then (t.children el).filter (· ≠ child) else t.children q) :
    Shows (h.removeChild el child) t' where
  children q := by rw [hs.children_removeChild, hchildren]
  childNodes q := by
    rw [Elements.childNodes_removeChild, hchildren, hs.childNodes]
    split_ifs with hq
    · rw [hq]
    · rfl
  parent p c hc := by
    rw [Elements.removeChild_apply]
    refine hs.parent p c ?_
    rw [hchildren] at hc
    split_ifs at hc with hp
    · rw [hp]
      exact (List.mem_filter.1 hc).1
    · exact hc

/-- `remove` goes by the parent that the node was last given. -/
theorem Shows.remove (hs : Shows h t) (el : Node) : Shows (h.remove el) (t.detach el) := by
  unfold Elements.remove
  rcases hp : (h el).parentNode with _ | p
  · have hd : t.Detached el := fun p hel => by
      have := (hs.parent p el hel).1
      rw [hp] at this
      cases this
    refine ⟨fun q => ?_, fun q => ?_, fun q c hc => ?_⟩
    · rw [Forest.detach_eq hd, hs.children]
    · rw [Forest.detach_eq hd, hs.childNodes]
    · rw [Forest.detach_eq hd] at hc
      exact hs.parent q c hc
  · refine hs.remove_at fun q => ?_
    split_ifs with hq
    · rw [hq]
      rfl
    · refine List.filter_eq_self.2 fun x hx => decide_eq_true ?_
      rintro rfl
      have := (hs.parent q x hx).1
      rw [hp] at this
      exact hq (Option.some.inj this).symm

theorem Shows.step (hs : Shows h t) {c : TreeCall Node} (hc : InPlace t c) :
    Shows (h.step c) (document_step t c) := by
  cases c with
  | appendChild el child =>
    have hd : t.Detached child := hc
    refine hs.append (fun p hp => ?_) (Forest.children_append hd)
    by_contra hne
    rw [document_step, Forest.children_append hd, if_neg hne] at hp
    exact hd p hp
  | removeChild el child => exact hs.remove_at Forest.children_removeChild
  | insertBefore el newChild ref =>
    obtain ⟨rfl, hd⟩ := hc
    refine hs.append (fun p hp => ?_) (Forest.children_append hd)
    by_contra hne
    rw [document_step, Forest.children_append hd, if_neg hne] at hp
    exact hd p hp
  | replaceChild el newChild oldChild =>
    obtain ⟨hlast, hnew⟩ := hc
    have hremoved : Shows (h.removeChild el oldChild) (t.removeChild el oldChild) :=
      hs.remove_at Forest.children_removeChild
    have hchildren := Forest.children_replace_last hlast hnew
    refine hremoved.append (fun p hp => ?_) fun q => ?_
    · by_contra hne
      rw [document_step, hchildren, if_neg hne] at hp
      rcases hnew with rfl | hd
      · exact hne (t.unique p el newChild hp (List.mem_of_getLast? hlast))
      · exact hd p hp
    · rw [document_step, hchildren, Forest.children_removeChild, Forest.children_removeChild, if_pos rfl]
      split_ifs <;> rfl
  | remove el => exact hs.remove el

/-! ### No other call shows the document -/

/-- The document takes a node from where it was, and the elements do not. -/
theorem detached_of_eq {el child : Node} {ref : Option Node} (href : ref ≠ some child)
    (heq : ∀ q, (if q = el then t.children el ++ [child] else t.children q) =
      (t.insertBefore el child ref).children q) : t.Detached child := by
  intro q hq
  by_cases hqel : q = el
  · have hnodup := (t.insertBefore el child ref).nodup el
    rw [← heq, if_pos rfl] at hnodup
    exact (List.nodup_append.1 hnodup).2.2 child (hqel ▸ hq) child List.mem_cons_self rfl
  · have hlist := heq q
    rw [if_neg hqel, Forest.children_insertBefore href, if_neg hqel] at hlist
    exact t.detached_detach child q (hlist ▸ hq)

theorem insertBefore_inPlace {el newChild : Node} {ref : Option Node} (hlegal : ∀ r, ref = some r → r ∈ t.children el)
    (heq : ∀ q, (if q = el then t.children el ++ [newChild] else t.children q) =
      (t.insertBefore el newChild ref).children q) : ref = none ∧ t.Detached newChild := by
  have href : ref ≠ some newChild := fun hself => by
    have hlist := heq el
    rw [if_pos rfl, Forest.insertBefore, if_pos hself] at hlist
    exact absurd (congrArg List.length hlist) (by simp)
  have hd := detached_of_eq href heq
  refine ⟨?_, hd⟩
  rcases ref with _ | r
  · rfl
  · have hlist := heq el
    rw [if_pos rfl, Forest.children_insertBefore href, if_pos rfl, Forest.detach_eq hd] at hlist
    exact absurd hlist.symm (Forest.insert_before_ne (hlegal r rfl) (hd el))

theorem replaceChild_inPlace {el newChild oldChild : Node}
    (heq : ∀ q, (if q = el then (t.children el).filter (· ≠ oldChild) ++ [newChild] else t.children q) =
      (t.replaceChild el newChild oldChild).children q) :
    (t.children el).getLast? = some oldChild ∧ (newChild = oldChild ∨ t.Detached newChild) := by
  have hlast := congrArg List.getLast? (heq el)
  rw [if_pos rfl, List.getLast?_concat] at hlast
  by_cases hne : newChild = oldChild
  · rw [Forest.replaceChild, if_pos hne, hne] at hlast
    exact ⟨hlast.symm, .inl hne⟩
  · have hd : t.Detached newChild := fun q hq => by
      by_cases hqel : q = el
      · have hnodup := (t.replaceChild el newChild oldChild).nodup el
        rw [← heq, if_pos rfl] at hnodup
        have hkept : newChild ∈ (t.children el).filter (· ≠ oldChild) :=
          List.mem_filter.2 ⟨hqel ▸ hq, decide_eq_true hne⟩
        exact (List.nodup_append.1 hnodup).2.2 newChild hkept newChild List.mem_cons_self rfl
      · have hlist := heq q
        rw [if_neg hqel, Forest.children_replaceChild hne, if_neg hqel] at hlist
        exact t.detached_detach newChild q (hlist ▸ hq)
    refine ⟨?_, .inr hd⟩
    rw [Forest.children_replaceChild hne, if_pos rfl, Forest.detach_eq hd, List.getLast?_map] at hlast
    obtain ⟨x, hx, hrenamed⟩ := Option.map_eq_some_iff.1 hlast.symm
    have hxold : x = oldChild := by
      by_contra hxo
      rw [Forest.renamed, if_neg hxo] at hrenamed
      exact hd el (hrenamed ▸ List.mem_of_getLast? hx)
    rw [hx, hxold]

theorem Shows.inPlace (hs : Shows h t) {c : TreeCall Node} (hlegal : Legal t c)
    (heq : ∀ q, (h.step c q).children = (document_step t c).children q) : InPlace t c := by
  cases c with
  | appendChild el child =>
    have hlast : ∀ r, (none : Option Node) = some r → r ∈ t.children el := nofun
    exact (insertBefore_inPlace hlast fun q => (hs.children_appendChild el child q).symm.trans (heq q)).2
  | removeChild el child => trivial
  | insertBefore el newChild ref =>
    exact insertBefore_inPlace hlegal fun q => (hs.children_appendChild el newChild q).symm.trans (heq q)
  | replaceChild el newChild oldChild =>
    refine replaceChild_inPlace fun q => Eq.trans ?_ (heq q)
    show _ = ((h.removeChild el oldChild).appendChild el newChild q).children
    rw [Elements.children_appendChild, hs.children_removeChild]
    split_ifs <;> rfl
  | remove el => trivial

/-! ### Histories -/

/-- Every call of a history has a property in the document that it finds. -/
def Throughout (P : Forest Node → TreeCall Node → Prop) (t : Forest Node) (calls : List (TreeCall Node)) : Prop :=
  ∀ pre c post, calls = pre ++ c :: post → P (pre.foldl document_step t) c

theorem throughout_cons {P : Forest Node → TreeCall Node → Prop} {c : TreeCall Node} {calls : List (TreeCall Node)} :
    Throughout P t (c :: calls) ↔ P t c ∧ Throughout P (document_step t c) calls := by
  constructor
  · intro hall
    exact ⟨hall [] c calls rfl, fun pre c' post hcalls => hall (c :: pre) c' post (by rw [hcalls]; rfl)⟩
  · rintro ⟨hc, hall⟩ (_ | ⟨c', pre⟩) c'' post hcalls
    · exact (List.cons.inj hcalls).1 ▸ hc
    · obtain ⟨rfl, rfl⟩ := List.cons.inj hcalls
      exact hall pre c'' post rfl

theorem throughout_nil {P : Forest Node → TreeCall Node → Prop} : Throughout P t [] :=
  fun _ _ _ hcalls => absurd hcalls.symm (by simp)

/-- The elements have the children that the document has, after every call. -/
def SameChildren (h : Elements Node) (t : Forest Node) (calls : List (TreeCall Node)) : Prop :=
  ∀ pre, pre <+: calls → ∀ q, (pre.foldl Elements.step h q).children = (pre.foldl document_step t).children q

theorem sameChildren_cons {c : TreeCall Node} {calls : List (TreeCall Node)} (hs : Shows h t) :
    SameChildren h t (c :: calls) ↔ SameChildren (h.step c) (document_step t c) calls := by
  constructor
  · intro hsame pre hpre
    exact hsame (c :: pre) (List.cons_prefix_cons.2 ⟨rfl, hpre⟩)
  · rintro hsame (_ | ⟨c', pre⟩) hpre
    · exact hs.children
    · obtain ⟨rfl, hrest⟩ := List.cons_prefix_cons.1 hpre
      exact hsame pre hrest

theorem Shows.history (hs : Shows h t) {calls : List (TreeCall Node)} (hlegal : Throughout Legal t calls) :
    (SameChildren h t calls ↔ Throughout InPlace t calls) ∧
      (Throughout InPlace t calls → Shows (calls.foldl Elements.step h) (calls.foldl document_step t)) := by
  induction calls generalizing h t with
  | nil =>
    refine ⟨⟨fun _ => throughout_nil, fun _ pre hpre => ?_⟩, fun _ => hs⟩
    rw [List.prefix_nil.1 hpre]
    exact hs.children
  | cons c calls ih =>
    obtain ⟨hc, hlegal⟩ := throughout_cons.1 hlegal
    rw [sameChildren_cons hs, throughout_cons]
    refine ⟨⟨fun hsame => ?_, fun hin => ?_⟩, fun hin => ?_⟩
    · have hin := hs.inPlace hc (hsame [] List.nil_prefix)
      exact ⟨hin, (ih (hs.step hin) hlegal).1.1 hsame⟩
    · exact (ih (hs.step hin.1) hlegal).1.2 hin.2
    · exact (ih (hs.step hin.1) hlegal).2 hin.2

/-- The element that a call gives a node for its parent. -/
def TreeCall.gives (c : Node) : TreeCall Node → Option Node
  | .appendChild el child => if c = child then some el else none
  | .insertBefore el newChild _ => if c = newChild then some el else none
  | .replaceChild el newChild _ => if c = newChild then some el else none
  | .removeChild _ _ | .remove _ => none

/-- The parent that a node was given last. -/
def given (calls : List (TreeCall Node)) (c : Node) : Option Node :=
  calls.foldl (fun p call => (call.gives c).or p) none

theorem parents_step (h : Elements Node) (call : TreeCall Node) (c : Node) :
    (h.step call c).parentNode = (call.gives c).or (h c).parentNode ∧
      (h.step call c).parentElement = (call.gives c).or (h c).parentElement := by
  have hadd : ∀ (h : Elements Node) (el child : Node),
      (h.appendChild el child c).parentNode = (if c = child then some el else none).or (h c).parentNode ∧
        (h.appendChild el child c).parentElement = (if c = child then some el else none).or (h c).parentElement := by
    intro h el child
    rw [Elements.appendChild_apply]
    by_cases hc : c = child
    · simp only [if_pos hc, Option.some_or, and_self]
    · simp only [if_neg hc, Option.none_or, and_self]
  have hremove : ∀ el child : Node, (h.removeChild el child c).parentNode = (h c).parentNode ∧
      (h.removeChild el child c).parentElement = (h c).parentElement := by
    intro el child
    rw [Elements.removeChild_apply]
    exact ⟨rfl, rfl⟩
  cases call with
  | appendChild el child => exact hadd h el child
  | removeChild el child => exact hremove el child
  | insertBefore el newChild ref => exact hadd h el newChild
  | replaceChild el newChild oldChild =>
    obtain ⟨hnode, helement⟩ := hadd (h.removeChild el oldChild) el newChild
    rw [(hremove el oldChild).1] at hnode
    rw [(hremove el oldChild).2] at helement
    exact ⟨hnode, helement⟩
  | remove el =>
    show (h.remove el c).parentNode = _ ∧ (h.remove el c).parentElement = _
    unfold Elements.remove
    rcases (h el).parentNode with _ | p
    · exact ⟨rfl, rfl⟩
    · exact hremove p el

theorem parents_foldl (calls : List (TreeCall Node)) (h : Elements Node) (c : Node) :
    (calls.foldl Elements.step h c).parentNode = calls.foldl (fun p call => (call.gives c).or p) (h c).parentNode ∧
      (calls.foldl Elements.step h c).parentElement =
        calls.foldl (fun p call => (call.gives c).or p) (h c).parentElement := by
  induction calls generalizing h with
  | nil => exact ⟨rfl, rfl⟩
  | cons call calls ih =>
    obtain ⟨hnode, helement⟩ := parents_step h call c
    have hrest := ih (h.step call)
    rw [hnode, helement] at hrest
    exact hrest

/-- Whatever the calls are, a node has the parent that it was given last. -/
theorem parents_after (calls : List (TreeCall Node)) (c : Node) :
    (calls.foldl Elements.step (fun _ => {}) c).parentNode = given calls c ∧
      (calls.foldl Elements.step (fun _ => {}) c).parentElement = given calls c :=
  parents_foldl calls (fun _ => {}) c

/-- Over every history of calls that a document would not refuse: the children of the elements are those of the document
at all times if and only if no call moves a node that has a parent, inserts before a node or replaces a child that is
not the last one. Then `childNodes` is right as well, and so are the parents of the nodes that have one; every other
node has the parent that it was given last. -/
theorem tree_iff {calls : List (TreeCall Node)} (hlegal : Throughout Legal {} calls) :
    (SameChildren (fun _ => {}) {} calls ↔ Throughout InPlace {} calls) ∧
      (Throughout InPlace {} calls → Shows (calls.foldl Elements.step fun _ => {}) (calls.foldl document_step {})) ∧
        ∀ c, (calls.foldl Elements.step (fun _ => {}) c).parentNode = given calls c ∧
          (calls.foldl Elements.step (fun _ => {}) c).parentElement = given calls c := by
  obtain ⟨hiff, hshows⟩ := shows_init.history hlegal
  exact ⟨hiff, hshows, parents_after calls⟩

/-- A node that is appended to two elements is a child of both, and one that is removed keeps its parent. -/
theorem tree_iff_moved : ¬ SameChildren (fun _ => {}) {} [.appendChild 0 1, .appendChild 2 1] ∧
    SameChildren (fun _ => {}) {} [TreeCall.appendChild 0 1, .removeChild 0 1] ∧
      ([TreeCall.appendChild 0 1, .removeChild 0 1].foldl Elements.step (fun _ => {}) 1).parentNode = some 0 := by
  constructor
  · have hlegal : Throughout Legal {} [TreeCall.appendChild 0 1, .appendChild 2 1] :=
      throughout_cons.2 ⟨trivial, throughout_cons.2 ⟨trivial, throughout_nil⟩⟩
    intro hsame
    have hdetached : Forest.Detached _ 1 := (tree_iff hlegal).1.1 hsame [.appendChild 0 1] (.appendChild 2 1) [] rfl
    exact hdetached 0 (by decide)
  · have hthere : (1 : Nat) ∈ (document_step {} (TreeCall.appendChild 0 1)).children 0 := by decide
    have hlegal : Throughout Legal {} [TreeCall.appendChild 0 1, .removeChild 0 1] :=
      throughout_cons.2 ⟨trivial, throughout_cons.2 ⟨hthere, throughout_nil⟩⟩
    have hin : Throughout InPlace {} [TreeCall.appendChild 0 1, .removeChild 0 1] :=
      throughout_cons.2 ⟨fun _ => List.not_mem_nil, throughout_cons.2 ⟨trivial, throughout_nil⟩⟩
    obtain ⟨hiff, -, hparents⟩ := tree_iff hlegal
    exact ⟨hiff.2 hin, (hparents 1).1⟩

end

end TtLive.fake_dom
