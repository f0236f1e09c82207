/-
# Glyphs that are changed

Before a glyph is written, it may be renamed, boxed, moved and drawn anew in part or as a whole.
Whatever is changed, each point is one that was read or one that was made since.  So what is
written can be read and gives the same glyph; and of the flags that a point was read with, all
but the lowest are still there.
-/

import SymbolFont.Proofs.Edit.Classed

namespace SymbolFont

open Markup

/-! ## Changes -/

/-- Is the point one that was made of its place alone? -/
structure Point.IsNew {α : Type} (p : Point α) : Prop where
  extra : p.extra = []
  flags : p.flags = none

/-- Change one point of a glyph, told by the places of its contour and of itself. -/
def Glyph.modifyPoint (i j : Nat) (change : Point Float → Point Float) (g : Glyph Float) :
    Glyph Float :=
  { g with contours := g.contours.modify i (·.modify j change) }

/-- A change of a glyph. -/
inductive GlyphChange where
  | rename (name : String)
  | setBounds (bounds : Option (BBox Float))
  | addContour (contour : Contour Float) (new : ∀ p ∈ contour, p.IsNew)
  | clearContours
  | setOnCurve (i j : Nat) (onCurve : Bool)
  | toggleOnCurve (i j : Nat)
  | movePoint (i j : Nat) (x y : Float)
  | addOther (node : Node) (plain : node.isElement contourName = false)

/-- The glyph after a change.  Only renaming touches the stored class. -/
def GlyphChange.apply (c : Classed (Glyph Float)) : GlyphChange → Classed (Glyph Float)
  | .rename name => c.rename name
  | .setBounds bounds => c.update ({ · with bounds })
  | .addContour contour _ => c.update fun g => { g with contours := g.contours ++ [contour] }
  | .clearContours => c.update ({ · with contours := [] })
  | .setOnCurve i j onCurve => c.update (Glyph.modifyPoint i j ({ · with onCurve }))
  | .toggleOnCurve i j =>
      c.update (Glyph.modifyPoint i j fun p => { p with onCurve := !p.onCurve })
  | .movePoint i j x y => c.update (Glyph.modifyPoint i j ({ · with x, y }))
  | .addOther node _ => c.update fun g => { g with other := g.other ++ [node] }

/-- What a glyph is made from: a name alone, or an element. -/
inductive GlyphSource where
  | named (name : String)
  | element (e : Element)

/-- The glyph that a source gives. -/
def GlyphSource.glyph : GlyphSource → Except ReadError (Classed (Glyph Float))
  | .named name => .ok (.make { name })
  | .element e => Classed.read Glyph.ofElement e

/-! ## Where points come from -/

/-- The elements that the points of a glyph were read from, contour by contour.  Points that were
made have none. -/
abbrev Origins := List (List (Option Element))

/-- The origins of the points that are read. -/
def GlyphSource.origins : GlyphSource → Origins
  | .named _ => []
  | .element e => (e.named contourName).map fun contour => (contour.named "pt").map some

/-- The origins after a change: only contours that come and go have an effect. -/
def GlyphChange.trace (origins : Origins) : GlyphChange → Origins
  | .addContour contour _ => origins ++ [contour.map fun _ => none]
  | .clearContours => []
  | _ => origins

namespace Point

/-- Elements that flags are read from have them. -/
theorem isSome_of_readFlags {e : Element} {flags : Option UInt32} (read : readFlags e = .ok flags) :
    flags.isSome = (e.attr? "on").isSome := by
  unfold readFlags at read
  split_ifs at read with present
  · obtain ⟨value, -, rfl⟩ := exists_of_map_eq_ok read
    exact present.symm
  · cases read
    exact (Bool.eq_false_iff.mpr present).symm

/-- Does a point come from an element, or from none?  Whatever its place is by now, it has the
flags and the other attributes that it began with. -/
inductive ComesFrom (p : Point Float) : Option Element → Prop
  | made (new : p.IsNew) : p.ComesFrom none
  | read {e : Element} (flags : readFlags e = .ok p.flags)
      (extra : ∀ pair ∈ p.extra, pair.1 ∉ pointKeys) : p.ComesFrom (some e)

namespace ComesFrom

variable {p q : Point Float} {origin : Option Element}

theorem of_ofElement {e : Element} (result : ofElement e = .ok p) : p.ComesFrom (some e) := by
  obtain ⟨flags, -⟩ := ofElement_eq_ok.mp result
  exact .read flags (readable_of_ofElement result).extra

/-- Only flags and other attributes come from an element for good. -/
theorem congr (comes : p.ComesFrom origin) (flags : q.flags = p.flags)
    (extra : q.extra = p.extra) : q.ComesFrom origin := by
  cases comes with
  | made new => exact .made ⟨extra.trans new.extra, flags.trans new.flags⟩
  | read flags_read others => exact .read (flags ▸ flags_read) (extra ▸ others)

theorem storable (comes : p.ComesFrom origin) : p.Storable := by
  cases comes with
  | made new =>
      intro pair mem
      rw [new.extra] at mem
      exact absurd mem List.not_mem_nil
  | read _ extra => exact extra

/-- A point without flags comes from an element without flags, or from none. -/
theorem flags_eq_none_iff (comes : p.ComesFrom origin) :
    p.flags = none ↔ ∀ e ∈ origin, e.attr? "on" = none := by
  cases comes with
  | made new => exact iff_of_true new.flags fun _ mem => nomatch mem
  | read flags_read _ =>
      simp only [Option.mem_some_iff, forall_eq', ← Option.isNone_iff_eq_none,
        ← Option.not_isSome, isSome_of_readFlags flags_read]

end ComesFrom

end Point

/-- What holds of a glyph whatever is changed: it has the class of its name, its points come from
their origins, and its other nodes are no contours. -/
structure Traced (origins : Origins) (c : Classed (Glyph Float)) : Prop where
  fresh : c.Fresh
  points : List.Forall₂ (List.Forall₂ Point.ComesFrom) c.record.contours origins
  other : ∀ node ∈ c.record.other, node.isElement contourName = false

section Lists

variable {α β : Type} {R : α → β → Prop} {as : List α} {bs : List β}

/-- What a change leaves alone is left alone in any list. -/
theorem forall₂_modify {change : α → α} (kept : ∀ a b, R a b → R (change a) b)
    (related : List.Forall₂ R as bs) (i : Nat) : List.Forall₂ R (as.modify i change) bs := by
  induction related generalizing i with
  | nil => cases i <;> exact .nil
  | cons first rest ih =>
      cases i with
      | zero => exact .cons (kept _ _ first) rest
      | succ i => exact .cons first (ih i)

theorem forall_of_forall₂ {P : α → Prop} (each : ∀ a b, R a b → P a)
    (related : List.Forall₂ R as bs) : ∀ a ∈ as, P a :=
  ((List.forall₂_and_left _ _).mp (related.imp fun a b holds => ⟨each a b holds, holds⟩)).1

end Lists

namespace Traced

variable {origins : Origins} {c : Classed (Glyph Float)}

/-- The glyph that a source gives is traced to the source. -/
theorem of_glyph {source : GlyphSource} (result : source.glyph = .ok c) :
    Traced source.origins c := by
  cases source with
  | named name =>
      cases result
      exact ⟨rfl, .nil, fun _ mem => absurd mem List.not_mem_nil⟩
  | element e =>
      obtain ⟨g, read, rfl⟩ := exists_of_map_eq_ok result
      obtain ⟨-, -, contours_read, -⟩ := Glyph.ofElement_eq_ok.mp read
      refine ⟨rfl, ?_, (Glyph.readable_of_ofElement read).other⟩
      show List.Forall₂ _ g.contours (List.map _ _)
      rw [List.forall₂_map_right_iff]
      refine (forall₂_of_mapM_eq_ok contours_read).flip.imp fun contour element contour_read => ?_
      rw [List.forall₂_map_right_iff]
      exact (forall₂_of_mapM_eq_ok contour_read).flip.imp fun _ _ => Point.ComesFrom.of_ofElement

theorem modifyPoint {change : Point Float → Point Float} (flags : ∀ p, (change p).flags = p.flags)
    (extra : ∀ p, (change p).extra = p.extra) (traced : Traced origins c) (i j : Nat) :
    Traced origins (c.update (Glyph.modifyPoint i j change)) where
  fresh := traced.fresh
  points := by
    refine forall₂_modify (fun contour elements related => ?_) traced.points i
    exact forall₂_modify (fun p _ comes => comes.congr (flags p) (extra p)) related j
  other := traced.other

/-- A change keeps a glyph traced. -/
theorem apply (traced : Traced origins c) (change : GlyphChange) :
    Traced (change.trace origins) (change.apply c) := by
  cases change with
  | rename name => exact ⟨rfl, traced.points, traced.other⟩
  | setBounds bounds => exact ⟨traced.fresh, traced.points, traced.other⟩
  | addContour contour new =>
      refine ⟨traced.fresh, ?_, traced.other⟩
      have made : List.Forall₂ Point.ComesFrom contour (contour.map fun _ => none) := by
        rw [List.forall₂_map_right_iff, List.forall₂_same]
        exact fun p mem => .made (new p mem)
      exact List.rel_append traced.points (.cons made .nil)
  | clearContours => exact ⟨traced.fresh, .nil, traced.other⟩
  | setOnCurve i j onCurve => refine traced.modifyPoint ?_ ?_ i j <;> exact fun _ => rfl
  | toggleOnCurve i j => refine traced.modifyPoint ?_ ?_ i j <;> exact fun _ => rfl
  | movePoint i j x y => refine traced.modifyPoint ?_ ?_ i j <;> exact fun _ => rfl
  | addOther node plain =>
      refine ⟨traced.fresh, traced.points, fun other mem => ?_⟩
      rcases List.mem_append.mp mem with before | added
      · exact traced.other other before
      · rw [List.mem_singleton.mp added]
        exact plain

/-- So do any changes. -/
theorem run (traced : Traced origins c) (changes : List GlyphChange) :
    Traced (changes.foldl GlyphChange.trace origins) (changes.foldl GlyphChange.apply c) := by
  -- After the first change the glyph is traced to the origins that the change leaves.
  induction changes generalizing origins c with
  | nil => exact traced
  | cons change changes ih => exact ih (traced.apply change)

theorem storable (traced : Traced origins c) : c.record.Storable where
  points := by
    refine forall_of_forall₂ (fun contour elements related => ?_) traced.points
    exact forall_of_forall₂ (fun p origin comes => comes.storable) related
  other := traced.other

end Traced

/-! ## Flags -/

namespace Point

/-- Of the flags that a point has, all but the lowest are written as they are; the lowest tells
whether the point is on the curve. -/
theorem testBit_writtenFlags {α : Type} {p : Point α} {flags : UInt32}
    (held : p.flags = some flags) : ∃ written, p.writtenFlags = some written ∧
      ∀ k, written.toNat.testBit k = if k = 0 then p.onCurve else flags.toNat.testBit k := by
  refine ⟨(flags &&& ~~~1) ||| (if p.onCurve then 1 else 0), by rw [writtenFlags, held], ?_⟩
  intro k
  have lowest : (if p.onCurve then 1 else 0 : UInt32).toNat.testBit k =
      (p.onCurve && decide (k = 0)) := by
    cases p.onCurve with
    | false => exact Nat.zero_testBit k
    | true =>
        rw [Bool.eq_iff_iff, Bool.true_and, decide_eq_true_iff]
        exact Nat.testBit_one_eq_true_iff_self_eq_zero
  have others : (flags &&& ~~~1).toNat.testBit k =
      (flags.toNat.testBit k && !decide (k = 0)) := by
    -- The mask ends where the word does, so it clears no other flag.
    have narrow : flags.toBitVec.getLsbD k = true → k < 32 := BitVec.lt_of_getLsbD
    show (flags.toBitVec &&& ~~~1#32).toNat.testBit k = (flags.toBitVec.getLsbD k && _)
    rw [BitVec.testBit_toNat, BitVec.getLsbD_and, BitVec.getLsbD_not, BitVec.getLsbD_one]
    cases set : flags.toBitVec.getLsbD k with
    | false => rfl
    | true => simp [narrow set]
  rw [UInt32.toNat_or, Nat.testBit_or, lowest, others]
  by_cases first : k = 0 <;> simp [first]

theorem writtenFlags_eq_none_iff {α : Type} {p : Point α} :
    p.writtenFlags = none ↔ p.onCurve = false ∧ p.flags = none := by
  unfold writtenFlags
  cases p.flags <;> cases p.onCurve <;> simp

/-- What has become of the flags that a point was read with. -/
structure KeepsFlags (p : Point Float) (origin : Option Element) : Prop where
  /-- Flags that were read are written with the lowest telling whether the point is on the
  curve, and with the others as they were. -/
  kept : ∀ e ∈ origin, ∀ flags, readFlags e = .ok (some flags) →
    ∃ written : UInt32, p.toElement.attr? "on" = some (toString written.toNat) ∧
      ∀ k, written.toNat.testBit k = if k = 0 then p.onCurve else flags.toNat.testBit k
  /-- No flags are written only for points off the curve that had none. -/
  absent : p.toElement.attr? "on" = none ↔
    p.onCurve = false ∧ ∀ e ∈ origin, e.attr? "on" = none

theorem ComesFrom.keepsFlags {p : Point Float} {origin : Option Element}
    (comes : p.ComesFrom origin) : p.KeepsFlags origin where
  kept := by
    intro e mem flags flags_read
    have storable := comes.storable
    cases comes with
    | made new => cases mem
    | read read _ =>
        cases mem
        rw [flags_read] at read
        obtain ⟨written, held, bits⟩ := testBit_writtenFlags (Except.ok.inj read).symm
        refine ⟨written, ?_, bits⟩
        rw [attr?_on_toElement storable, held]
        rfl
  absent := by
    rw [attr?_on_toElement comes.storable, Option.map_eq_none_iff, writtenFlags_eq_none_iff,
      comes.flags_eq_none_iff]

end Point

/-! ## Glyphs that are read back -/

/-- Are two numbers the same?  Both zeros are one, and so are undefined numbers. -/
def Number.Same (x y : Float) : Prop := (x == y) = true ∨ x = y

structure BBox.Same (a b : BBox Float) : Prop where
  xMin : Number.Same a.xMin b.xMin
  yMin : Number.Same a.yMin b.yMin
  xMax : Number.Same a.xMax b.xMax
  yMax : Number.Same a.yMax b.yMax

/-- Are two points the same but for their flags? -/
structure Point.Same (p q : Point Float) : Prop where
  x : Number.Same p.x q.x
  y : Number.Same p.y q.y
  onCurve : p.onCurve = q.onCurve
  extra : p.extra = q.extra

/-- Are two glyphs and their classes the same? -/
structure Classed.Same (a b : Classed (Glyph Float)) : Prop where
  name : a.record.name = b.record.name
  cls : a.cls = b.cls
  bounds : Option.Rel BBox.Same a.record.bounds b.record.bounds
  contours : List.Forall₂ (List.Forall₂ Point.Same) a.record.contours b.record.contours
  other : a.record.other = b.record.other

theorem BBox.same_asWritten (b : BBox Float) : b.asWritten.Same b :=
  ⟨Number.asWritten_beq _, Number.asWritten_beq _, Number.asWritten_beq _, Number.asWritten_beq _⟩

theorem Point.same_asStored (p : Point Float) : p.asStored.Same p :=
  ⟨Number.asWritten_beq _, Number.asWritten_beq _, rfl, rfl⟩

theorem Classed.same_asStored {c : Classed (Glyph Float)} (fresh : c.Fresh) :
    (make c.record.asStored).Same c where
  name := rfl
  cls := fresh.symm
  bounds := by
    show Option.Rel _ (c.record.bounds.map BBox.asWritten) c.record.bounds
    cases c.record.bounds with
    | none => exact .none
    | some b => exact .some b.same_asWritten
  contours := by
    show List.Forall₂ _ (c.record.contours.map (·.map Point.asStored)) c.record.contours
    rw [List.forall₂_map_left_iff, List.forall₂_same]
    intro contour _
    rw [List.forall₂_map_left_iff, List.forall₂_same]
    exact fun p _ => p.same_asStored
  other := rfl

/-- A glyph survives whatever is changed.  After any changes of a glyph that was read or made,
its element is read, and as the same glyph; this is written as the same element again; and each
point keeps the flags of the element that it comes from. -/
theorem glyph_survives_changes {source : GlyphSource} {made : Classed (Glyph Float)}
    (result : source.glyph = .ok made) (changes : List GlyphChange) :
    let c := changes.foldl GlyphChange.apply made
    ∃ back, Classed.read Glyph.ofElement c.record.toElement = .ok back ∧ back.Same c ∧
      back.record.toElement = c.record.toElement ∧
      List.Forall₂ (List.Forall₂ Point.KeepsFlags) c.record.contours
        (changes.foldl GlyphChange.trace source.origins) := by
  intro c
  have traced : Traced _ c := (Traced.of_glyph result).run changes
  have read : Glyph.ofElement c.record.toElement = .ok c.record.asStored :=
    Glyph.ofElement_toElement_of_storable traced.storable
  refine ⟨.make c.record.asStored, ?_, Classed.same_asStored traced.fresh,
    traced.storable.toElement_asStored, ?_⟩
  · rw [Classed.read, read]
    rfl
  · exact traced.points.imp fun _ _ related => related.imp fun _ _ comes => comes.keepsFlags

/-- A glyph with a point off the curve that has no flags, and one on the curve that has two. -/
def flaggedSource : GlyphSource := .element
  ⟨"TTGlyph", [("name", "A"), ("xMin", "0"), ("yMin", "0"), ("xMax", "1"), ("yMax", "1")],
    [.element "contour" []
      [.element "pt" [("x", "0"), ("y", "0")] [],
        .element "pt" [("x", "1"), ("y", "1"), ("on", "3"), ("overlap", "1")] []]]⟩

/-- The glyph that it gives. -/
def flaggedGlyph : Glyph Float where
  name := "A"
  bounds := some ⟨0, 0, 1, 1⟩
  contours :=
    [[{ x := 0, y := 0, onCurve := false },
      { x := 1, y := 1, onCurve := true, extra := [("overlap", "1")], flags := some 3 }]]

/-- Both points are put on the other side, in a glyph that loses its box and becomes a number.
The first gets a flag, and the second keeps its other one. -/
theorem glyph_survives_changes_of_flagged :
    let changes : List GlyphChange :=
      [.toggleOnCurve 0 0, .toggleOnCurve 0 1, .movePoint 0 0 2 (0 / 0), .rename "SW5",
        .setBounds none]
    let c := changes.foldl GlyphChange.apply (.make flaggedGlyph)
    flaggedSource.glyph = .ok (.make flaggedGlyph) ∧
      c.record.contours.map (·.map (·.toElement.attr? "on")) = [[some "1", some "2"]] ∧
      ∃ back, Classed.read Glyph.ofElement c.record.toElement = .ok back ∧ back.Same c ∧
        back.cls = .numeral := by
  intro changes c
  have result : flaggedSource.glyph = .ok (.make flaggedGlyph) := rfl
  obtain ⟨back, read, same, -, -⟩ := glyph_survives_changes result changes
  exact ⟨result, rfl, back, read, same, same.cls.trans rfl⟩

end SymbolFont
