/-
# Trees as they are read again

Writing a tree and reading the text does not always give the same tree.  Neighbouring
texts become one, texts of white space alone are lost, and comments gain a space at an end
that has no blank.  `Element.normal` is the tree with these changes made.  Its elements
are those of the tree, and a second time nothing changes.

`Demands.kept` tells which trees are read again in this form, and `Element.isWritable`
which of them have no line ends in values either.
-/

import Mathlib.Tactic.Common
import Mathlib.Data.List.Infix
import SymbolFont.Markup.Char
import SymbolFont.Markup.Name
import SymbolFont.Markup.Printer
import SymbolFont.Proofs.Markup.Demands

namespace SymbolFont.Markup

/-! ## Trees that a document can hold -/

/-- Is this a name without a colon? -/
def isPlainName (name : String) : Bool :=
  name.toList.head?.any isNameStart && name.toList.all fun c => isNameChar c && c != ':'

/-- Are all characters legal, and none a carriage return? -/
def isPlainText (cs : List Char) : Bool := cs.all fun c => Version.v10.allows c && c != '\r'

/-- Is the text plain, without tabs and line feeds? -/
def isPlainValue (cs : List Char) : Bool :=
  isPlainText cs && cs.all fun c => c != '\t' && c != '\n'

/-- Is the text plain, without two dashes in a row? -/
def isPlainComment (cs : List Char) : Bool := isPlainText cs && decide ¬['-', '-'] <:+: cs

/-- Can attributes be written: do their keys differ, and are they and the values plain? -/
def arePlainAttributes (attributes : Attributes) : Bool :=
  decide (attributes.map Prod.fst).Nodup &&
    attributes.all fun (key, value) =>
      isPlainName key && key != declaringName && isPlainValue value.toList

/-- Are all characters legal, and none a tab?  Line ends in values are written by number. -/
def isKeptValue (cs : List Char) : Bool := cs.all fun c => Version.v10.allows c && c != '\t'

/-- Are attributes read again as they are: do their keys differ, and are these plain and the
values kept? -/
def areKeptAttributes (attributes : Attributes) : Bool :=
  decide (attributes.map Prod.fst).Nodup &&
    attributes.all fun (key, value) =>
      isPlainName key && key != declaringName && isKeptValue value.toList

/-- What is demanded of a tree for it to be read again, but for texts that meet and the ends
of comments. -/
def Demands.kept : Demands where
  tag name attributes := isPlainName name && areKeptAttributes attributes
  text := isPlainText
  comment := isPlainComment

namespace Node

mutual

/-- Can a document hold the node? -/
def isWritable : Node → Bool
  | .element name attributes children =>
      isPlainName name && arePlainAttributes attributes && areWritable children
  | .text content => isPlainText content.toList
  | .comment content => isPlainComment content.toList

/-- Can a document hold the nodes? -/
def areWritable : List Node → Bool
  | [] => true
  | node :: nodes => node.isWritable && areWritable nodes

end

/-! ## Nodes without text and comments -/

mutual

/-- The node as an element with nothing but elements in it, if it is one. -/
def bare : Node → Option Node
  | .element name attributes children => some (.element name attributes (bareList children))
  | _ => none

/-- The elements among the nodes, with nothing but elements in them. -/
def bareList : List Node → List Node
  | [] => []
  | node :: nodes => node.bare.toList ++ bareList nodes

end

end Node

/-! ## Nodes that do not change -/

/-- Does the text of a comment begin and end with a blank? -/
def isPadded (cs : List Char) : Bool :=
  cs.head?.any Text.isBlank && cs.getLast?.any Text.isBlank

namespace Node

mutual

/-- Is no text in the node next to another or white space only, and every comment padded? -/
def isTidy : Node → Bool
  | .element _ _ children => areTidy false children
  | .text content => !content.toList.all isSpace
  | .comment content => isPadded content.toList

/-- The same of nodes, `afterText` telling whether text stands right before them. -/
def areTidy (afterText : Bool) : List Node → Bool
  | [] => true
  | node :: nodes => node.isTidy && !(afterText && node.isText) && areTidy node.isText nodes

end

end Node

/-! ## The tree that is read -/

/-- The text of a comment, with a space at each end that has no blank. -/
def padded (cs : List Char) : List Char :=
  (if cs.head?.any Text.isBlank then [] else [' ']) ++ cs ++
    (if cs.getLast?.any Text.isBlank then [] else [' '])

/-- The node that a run of text becomes, unless the run is white space only. -/
def runNodes (run : List Char) : List Node :=
  if run.all isSpace then [] else [.text (String.ofList run)]

namespace Node

mutual

/-- The node as it is read. -/
def normal : Node → Node
  | .element name attributes children => .element name attributes (normalList [] children)
  | .text content => .text content
  | .comment content => .comment (String.ofList (padded content.toList))

/-- The nodes as they are read behind a run of text. -/
def normalList (run : List Char) : List Node → List Node
  | [] => runNodes run
  | node :: nodes =>
      match node with
      | .text content => normalList (run ++ content.toList) nodes
      | node => runNodes run ++ node.normal :: normalList [] nodes

end

end Node

namespace Element

/-- Can a document hold the element? -/
def isWritable (e : Element) : Bool := e.toNode.isWritable

/-- The element with nothing but elements in it. -/
def bare (e : Element) : Element := { e with children := Node.bareList e.children }

/-- Is the element tidy? -/
def isTidy (e : Element) : Bool := e.toNode.isTidy

/-- The element as it is read. -/
def normal (e : Element) : Element := { e with children := Node.normalList [] e.children }

end Element

/-! ## Comments -/

/-- Between two texts no pair of dashes arises if one of them has no dash at that end. -/
theorem no_dashes_append {xs ys : List Char} (left : ¬['-', '-'] <:+: xs)
    (right : ¬['-', '-'] <:+: ys) (edge : xs.getLast? ≠ some '-' ∨ ys.head? ≠ some '-') :
    ¬['-', '-'] <:+: xs ++ ys := by
  rw [List.infix_append_iff_ne_nil]
  rintro (inside | inside |
    ⟨front, back, front_ne, back_ne, joined, ⟨before, ends⟩, ⟨after, begins⟩⟩)
  · exact left inside
  · exact right inside
  · obtain ⟨rfl, rfl⟩ : front = ['-'] ∧ back = ['-'] := by
      rcases front with _ | ⟨a, _ | ⟨b, rest⟩⟩
      · exact absurd rfl front_ne
      · simpa [eq_comm] using joined
      · simp_all
    subst ends begins
    simp at edge

/-- No pair of dashes stands in one character. -/
theorem no_dashes_singleton (c : Char) : ¬['-', '-'] <:+: [c] := by
  intro pair
  have short := pair.length_le
  simp at short

/-- A dash is no blank. -/
theorem ne_dash_of_isBlank {c : Char} (blank : Text.isBlank c = true) : c ≠ '-' := by
  rintro rfl
  exact absurd blank (by decide)

/-- A padded comment begins with a blank. -/
theorem head?_padded (cs : List Char) : (padded cs).head?.any Text.isBlank = true := by
  by_cases before : cs.head?.any Text.isBlank = true
  · obtain ⟨c, head, blank⟩ := (Option.any_eq_true _ _).mp before
    simp [padded, List.head?_append, head, blank]
  · simp [padded, before]
    decide

/-- A padded comment ends with a blank. -/
theorem getLast?_padded (cs : List Char) : (padded cs).getLast?.any Text.isBlank = true := by
  by_cases after : cs.getLast?.any Text.isBlank = true
  · obtain ⟨c, last, blank⟩ := (Option.any_eq_true _ _).mp after
    simp [padded, List.getLast?_append, last, blank]
  · simp [padded, after]
    decide

/-- A padded comment is padded. -/
theorem isPadded_padded (cs : List Char) : isPadded (padded cs) = true := by
  rw [isPadded, head?_padded, getLast?_padded, Bool.and_self]

/-- A comment that is padded already stays as it is. -/
theorem padded_of_isPadded {cs : List Char} (both : isPadded cs = true) : padded cs = cs := by
  obtain ⟨before, after⟩ := Bool.and_eq_true_iff.mp both
  rw [padded, if_pos before, if_pos after, List.nil_append, List.append_nil]

/-- Padding makes no pair of dashes, not even with the dashes that end the comment. -/
theorem no_dashes_padded {cs : List Char} (separate : ¬['-', '-'] <:+: cs) :
    ¬['-', '-'] <:+: padded cs ++ ['-'] := by
  have blank_edge : ∀ side : Bool,
      ¬['-', '-'] <:+: (if side = true then [] else [' ']) ∧
        (if side = true then [] else [' ']).getLast? ≠ some '-' ∧
          (if side = true then [] else [' ']).head? ≠ some '-' := by
    decide
  obtain ⟨before, before_edge, -⟩ := blank_edge (cs.head?.any Text.isBlank)
  obtain ⟨after, -, after_edge⟩ := blank_edge (cs.getLast?.any Text.isBlank)
  have inside : ¬['-', '-'] <:+: padded cs :=
    no_dashes_append (no_dashes_append before separate (.inl before_edge)) after (.inr after_edge)
  refine no_dashes_append inside (no_dashes_singleton _) (.inl ?_)
  obtain ⟨c, last, blank⟩ := (Option.any_eq_true _ _).mp (getLast?_padded cs)
  rw [last]
  exact fun same => ne_dash_of_isBlank blank (Option.some.inj same)

/-- Dashes that stand apart are left alone. -/
theorem separateDashes_of_no_dashes : ∀ {cs : List Char}, ¬['-', '-'] <:+: cs →
    separateDashes cs = cs
  | [], _ => rfl
  | c :: cs, separate => by
      have rest : ¬['-', '-'] <:+: cs := fun pair => separate (List.infix_cons pair)
      rw [separateDashes, separateDashes_of_no_dashes rest]
      rintro others rfl rfl
      exact separate ⟨[], others, rfl⟩

/-- A comment without pairs of dashes is written as it is, but padded. -/
theorem toList_commentPiece {content : String} (separate : ¬['-', '-'] <:+: content.toList) :
    (commentPiece content).toList =
      "<!--".toList ++ padded content.toList ++ "-->".toList := by
  rw [commentPiece, separateDashes_of_no_dashes separate, padded]
  by_cases before : content.toList.head?.any Text.isBlank = true <;>
    by_cases after : content.toList.getLast?.any Text.isBlank = true <;>
      simp [before, after]

/-! ## Plain texts -/

/-- Plain texts may be joined. -/
theorem isPlainText_append (cs ds : List Char) :
    isPlainText (cs ++ ds) = (isPlainText cs && isPlainText ds) := List.all_append

/-- Padding a comment leaves it plain. -/
theorem isPlainComment_padded {cs : List Char} (plain : isPlainComment cs = true) :
    isPlainComment (padded cs) = true := by
  simp only [isPlainComment, Bool.and_eq_true, decide_eq_true_eq] at plain ⊢
  refine ⟨?_, fun pair => no_dashes_padded plain.2 (pair.trans (List.infix_append' [] _ _))⟩
  have blank : ∀ side : Bool, isPlainText (if side = true then [] else [' ']) = true := by decide
  rw [padded, isPlainText_append, isPlainText_append, blank, plain.1, blank]
  rfl

/-- A plain value is kept. -/
theorem isKeptValue_of_isPlainValue {cs : List Char} (plain : isPlainValue cs = true) :
    isKeptValue cs = true := by
  obtain ⟨legal, solid⟩ := Bool.and_eq_true_iff.mp plain
  rw [isPlainText, List.all_eq_true] at legal
  rw [List.all_eq_true] at solid
  rw [isKeptValue, List.all_eq_true]
  intro c mem
  rw [Bool.and_eq_true]
  exact ⟨(Bool.and_eq_true_iff.mp (legal c mem)).1, (Bool.and_eq_true_iff.mp (solid c mem)).1⟩

/-- Attributes are kept one by one, but for their keys, which differ. -/
theorem areKeptAttributes_cons {key value : String} {attributes : Attributes} :
    areKeptAttributes ((key, value) :: attributes) = true ↔
      (key ∉ attributes.map Prod.fst ∧ isPlainName key = true ∧ key ≠ declaringName ∧
        isKeptValue value.toList = true) ∧ areKeptAttributes attributes = true := by
  simp only [areKeptAttributes, List.map_cons, List.nodup_cons, List.all_cons, Bool.and_eq_true,
    decide_eq_true_eq, bne_iff_ne]
  tauto

/-- Attributes are kept when one of them is set to a value that is. -/
theorem areKeptAttributes_setFirst {key value : String} {attributes : Attributes}
    (plain : isPlainName key = true) (differs : key ≠ declaringName)
    (value_kept : isKeptValue value.toList = true) (kept : areKeptAttributes attributes = true) :
    areKeptAttributes (Element.setFirst key value attributes) = true := by
  induction attributes with
  | nil => exact areKeptAttributes_cons.mpr ⟨⟨List.not_mem_nil, plain, differs, value_kept⟩, rfl⟩
  | cons pair attributes ih =>
      obtain ⟨own, old⟩ := pair
      obtain ⟨⟨fresh, own_plain, own_differs, old_kept⟩, rest⟩ := areKeptAttributes_cons.mp kept
      by_cases first : own = key
      · rw [Element.setFirst, if_pos first]
        exact areKeptAttributes_cons.mpr ⟨⟨fresh, own_plain, own_differs, value_kept⟩, rest⟩
      · rw [Element.setFirst, if_neg first]
        refine areKeptAttributes_cons.mpr
          ⟨⟨fun mem => ?_, own_plain, own_differs, old_kept⟩, ih rest⟩
        exact (Element.mem_keys_of_mem_keys_setFirst mem).elim first fresh

/-- The tag of an element that a document can hold is kept. -/
theorem Demands.kept_tag_of_plain {name : String} {attributes : Attributes}
    (plain : (isPlainName name && arePlainAttributes attributes) = true) :
    Demands.kept.tag name attributes = true := by
  obtain ⟨name_plain, attributes_plain⟩ := Bool.and_eq_true_iff.mp plain
  refine Bool.and_eq_true_iff.mpr ⟨name_plain, ?_⟩
  obtain ⟨distinct, all⟩ := Bool.and_eq_true_iff.mp attributes_plain
  rw [List.all_eq_true] at all
  rw [areKeptAttributes, distinct, Bool.true_and, List.all_eq_true]
  rintro ⟨key, value⟩ mem
  obtain ⟨keys, solid⟩ := Bool.and_eq_true_iff.mp (all (key, value) mem)
  exact Bool.and_eq_true_iff.mpr ⟨keys, isKeptValue_of_isPlainValue solid⟩

/-- What a document can hold is kept. -/
theorem Node.allMeet_kept_of_areWritable {nodes : List Node}
    (writable : areWritable nodes = true) : allMeet .kept nodes = true := by
  induction nodes using list_induction with
  | nil => rfl
  | text content nodes ih | comment content nodes ih =>
      obtain ⟨plain, rest⟩ := Bool.and_eq_true_iff.mp writable
      exact Bool.and_eq_true_iff.mpr ⟨plain, ih rest⟩
  | element name attributes children nodes inside ih =>
      obtain ⟨here, rest⟩ := Bool.and_eq_true_iff.mp writable
      obtain ⟨tag, children_writable⟩ := Bool.and_eq_true_iff.mp here
      exact Bool.and_eq_true_iff.mpr ⟨Bool.and_eq_true_iff.mpr
        ⟨Demands.kept_tag_of_plain tag, inside children_writable⟩, ih rest⟩

/-- An element that a document can hold is kept. -/
theorem Element.meets_kept_of_isWritable {e : Element} (writable : e.isWritable = true) :
    e.meets .kept = true := by
  obtain ⟨tag, children_writable⟩ := Bool.and_eq_true_iff.mp writable
  exact Bool.and_eq_true_iff.mpr
    ⟨Demands.kept_tag_of_plain tag, Node.allMeet_kept_of_areWritable children_writable⟩

/-! ## Laws of the normal form -/

namespace Node

variable (run : List Char) (nodes : List Node)

@[simp] theorem normalList_nil : normalList run [] = runNodes run := rfl

@[simp] theorem normalList_text (content : String) :
    normalList run (.text content :: nodes) = normalList (run ++ content.toList) nodes := rfl

@[simp] theorem normalList_comment (content : String) :
    normalList run (.comment content :: nodes) =
      runNodes run ++ .comment (String.ofList (padded content.toList)) :: normalList [] nodes := rfl

@[simp] theorem normalList_element (name : String) (attributes : Attributes)
    (children : List Node) :
    normalList run (.element name attributes children :: nodes) =
      runNodes run ++ .element name attributes (normalList [] children) ::
        normalList [] nodes := rfl

/-- Markup ends the run of text before it. -/
theorem normalList_of_not_isText {node : Node} (no_text : node.isText = false) :
    normalList run (node :: nodes) = runNodes run ++ node.normal :: normalList [] nodes := by
  cases node with
  | text content => exact nomatch no_text
  | comment content => rfl
  | element name attributes children => rfl

/-- A run of text has no elements. -/
@[simp] theorem bareList_runNodes_append : bareList (runNodes run ++ nodes) = bareList nodes := by
  rw [runNodes]
  split <;> rfl

/-- The elements stay what they are, with their attributes, order and nesting. -/
theorem bareList_normalList : bareList (normalList run nodes) = bareList nodes := by
  induction nodes using list_induction generalizing run with
  | nil => simpa using bareList_runNodes_append run []
  | text content nodes ih => exact ih _
  | comment content nodes ih => simp [bareList, bare, ih]
  | element name attributes children nodes inside ih => simp [bareList, bare, inside, ih]

theorem filterMap_element?_runNodes_append :
    (runNodes run ++ nodes).filterMap element? = nodes.filterMap element? := by
  rw [runNodes]
  split <;> rfl

/-- The elements among the nodes are those that were there, in their normal form. -/
theorem filterMap_element?_normalList :
    (normalList run nodes).filterMap element? =
      (nodes.filterMap element?).map fun e => { e with children := normalList [] e.children } := by
  induction nodes generalizing run with
  | nil => simpa using filterMap_element?_runNodes_append run []
  | cons node nodes ih =>
      cases node with
      | text content => exact ih _
      | comment content =>
          rw [normalList_comment, filterMap_element?_runNodes_append]
          exact ih _
      | element name attributes children =>
          rw [normalList_element, filterMap_element?_runNodes_append]
          simp [element?, ih]

/-- Elements in front are read one by one. -/
theorem normalList_map_toNode_append (es : List Element) :
    normalList [] (es.map Element.toNode ++ nodes) =
      (es.map fun e => e.toNode.normal) ++ normalList [] nodes := by
  induction es with
  | nil => rfl
  | cons e es ih =>
      rw [List.map_cons, List.cons_append, normalList_of_not_isText [] _ rfl, ih]
      rfl

/-- Where there is no element of a name there is none in the normal form. -/
theorem not_isElement_of_mem_normalList {name : String}
    (none : ∀ node ∈ nodes, node.isElement name = false) :
    ∀ node ∈ normalList run nodes, node.isElement name = false := by
  intro node mem
  rcases node.element_or_not with ⟨e, rfl⟩ | no_element
  · have among : e ∈ (normalList run nodes).filterMap element? :=
      List.mem_filterMap.mpr ⟨e.toNode, mem, rfl⟩
    rw [filterMap_element?_normalList] at among
    obtain ⟨source, source_mem, rfl⟩ := List.mem_map.mp among
    obtain ⟨origin, origin_mem, found⟩ := List.mem_filterMap.mp source_mem
    rcases origin.element_or_not with ⟨x, rfl⟩ | no_origin
    · obtain rfl : x = source := by simpa using found
      have outside := none _ origin_mem
      exact outside
    · rw [no_origin] at found
      cases found
  · cases node with
    | element name attributes children => cases no_element
    | text content => rfl
    | comment content => rfl

/-- A run of text may be followed by anything else that is tidy. -/
theorem areTidy_runNodes_append {node : Node} (no_text : node.isText = false)
    (tidy : areTidy false (node :: nodes) = true) :
    areTidy false (runNodes run ++ node :: nodes) = true := by
  by_cases blank : run.all isSpace = true
  · rwa [runNodes, if_pos blank]
  · rw [runNodes, if_neg blank]
    simp_all [areTidy, isTidy, isText]

/-- What is read is tidy. -/
theorem areTidy_normalList : areTidy false (normalList run nodes) = true := by
  induction nodes using list_induction generalizing run with
  | nil =>
      rw [normalList_nil, runNodes]
      split <;> simp_all [areTidy, isTidy]
  | text content nodes ih => exact ih _
  | comment content nodes ih =>
      rw [normalList_comment]
      apply areTidy_runNodes_append _ _ rfl
      simp [areTidy, isTidy, isPadded_padded, isText, ih]
  | element name attributes children nodes inside ih =>
      rw [normalList_element]
      apply areTidy_runNodes_append _ _ rfl
      simp [areTidy, isTidy, isText, inside, ih]

/-- Tidy nodes are read as they are. -/
theorem normalList_of_areTidy (solid : run.all isSpace = true → run = [])
    (tidy : areTidy (!run.isEmpty) nodes = true) :
    normalList run nodes = runNodes run ++ nodes := by
  induction nodes using list_induction generalizing run with
  | nil => simp
  | text content nodes ih =>
      simp only [areTidy, isTidy, isText, Bool.and_eq_true, Bool.and_true, Bool.not_not,
        Bool.not_eq_true', List.isEmpty_iff] at tidy
      obtain ⟨⟨visible, rfl⟩, rest⟩ := tidy
      have some_text : content.toList ≠ [] := by
        intro none
        rw [none] at visible
        exact absurd visible (by decide)
      have inner : normalList content.toList nodes = runNodes content.toList ++ nodes := by
        apply ih
        · intro blank
          exact absurd (blank.symm.trans visible) (by decide)
        · rwa [List.isEmpty_eq_false_iff.mpr some_text]
      rw [normalList_text, List.nil_append, inner]
      simp [runNodes, visible]
  | comment content nodes ih =>
      simp only [areTidy, isTidy, isText, Bool.and_eq_true] at tidy
      rw [normalList_comment, padded_of_isPadded tidy.1.1, String.ofList_toList,
        ih [] (fun _ => rfl) tidy.2]
      rfl
  | element name attributes children nodes inside ih =>
      simp only [areTidy, isTidy, isText, Bool.and_eq_true] at tidy
      rw [normalList_element, inside [] (fun _ => rfl) tidy.1.1, ih [] (fun _ => rfl) tidy.2]
      rfl

/-- A run of plain text can be written. -/
theorem areWritable_runNodes_append (plain : isPlainText run = true) :
    areWritable (runNodes run ++ nodes) = areWritable nodes := by
  rw [runNodes]
  split
  · rfl
  · simp [areWritable, isWritable, plain]

/-- What is read can be written again. -/
theorem areWritable_normalList (plain : isPlainText run = true)
    (writable : areWritable nodes = true) : areWritable (normalList run nodes) = true := by
  induction nodes using list_induction generalizing run with
  | nil => simpa [areWritable] using areWritable_runNodes_append run [] plain
  | text content nodes ih =>
      simp only [areWritable, isWritable, Bool.and_eq_true] at writable
      have joined : isPlainText (run ++ content.toList) = true := by
        rw [isPlainText_append, plain, writable.1, Bool.and_self]
      exact ih _ joined writable.2
  | comment content nodes ih =>
      simp only [areWritable, isWritable, Bool.and_eq_true] at writable
      rw [normalList_comment, areWritable_runNodes_append _ _ plain, areWritable, isWritable,
        String.toList_ofList, isPlainComment_padded writable.1, ih [] rfl writable.2, Bool.and_self]
  | element name attributes children nodes inside ih =>
      simp only [areWritable, isWritable, Bool.and_eq_true] at writable
      rw [normalList_element, areWritable_runNodes_append _ _ plain, areWritable, isWritable,
        writable.1.1.1, writable.1.1.2, inside [] rfl writable.1.2, ih [] rfl writable.2]
      rfl

end Node

namespace Element

variable (e : Element)

/-- The elements of a tree stay what they are. -/
theorem bare_normal : e.normal.bare = e.bare := by
  rw [bare, normal, Node.bareList_normalList, bare]

/-- What is read can be written again. -/
theorem isWritable_normal {e : Element} (writable : e.isWritable = true) :
    e.normal.isWritable = true := by
  simp only [isWritable, toNode, Node.isWritable, Bool.and_eq_true] at writable ⊢
  exact ⟨writable.1, Node.areWritable_normalList [] e.children rfl writable.2⟩

theorem elements_normal : e.normal.elements = e.elements.map normal :=
  Node.filterMap_element?_normalList [] e.children

theorem named_normal (name : String) : e.normal.named name = (e.named name).map normal := by
  rw [named, elements_normal, List.filter_map]
  rfl

theorem child?_normal (name : String) : e.normal.child? name = (e.child? name).map normal := by
  rw [child?, elements_normal, List.find?_map]
  rfl

/-- A tidy tree is read as it is. -/
theorem normal_of_isTidy {e : Element} (tidy : e.isTidy = true) : e.normal = e := by
  rw [normal, Node.normalList_of_areTidy [] e.children (fun _ => rfl) tidy]
  rfl

/-- What has been read once is read as it is. -/
theorem normal_normal : e.normal.normal = e.normal :=
  normal_of_isTidy (Node.areTidy_normalList [] e.children)

end Element

end SymbolFont.Markup
