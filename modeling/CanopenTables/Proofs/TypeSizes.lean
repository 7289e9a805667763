import CanopenTables.Proofs.RangeRegistration
import CanopenTables.Proofs.RowStorage
import CanopenTables.Proofs.ValueLines
import Mathlib.Data.List.TakeWhile

/-!
# Sizes of types

Strings and domains are arrays of bytes and have a size; numbers and truth values have none.  A
value range takes over everything but the kind from its base type, so a range over a string or a
domain takes over the size as well, and its values are declared like those of its base.

* **What a resolver knows by name** has no size: types are remembered only when they have none, and
  ranges over numbers are registered without one (`Resolver.IsPlain`).  Every step of a generation
  keeps this as long as no range is built on bytes (`isPlain_of_passes`).
* **The name of a range** is no name of a family (`classify_eq_none_of_matches`), so nothing can
  hide a string or a domain from a range that is built on it (`Resolver.IsNamed`), and such a range
  is registered with a size (`rangesOverNumbers_of_sizesFit`).

Main statement: `sizes_only_for_bytes`.
-/

namespace CanopenTables

/-! ### Types and families -/

theorem Kind.isByteSequence_iff {kind : Kind} :
    kind.isByteSequence = true ↔ kind = .visibleString ∨ kind = .domain := by
  cases kind with
  | visibleString => simp [isByteSequence]
  | domain => simp [isByteSequence]
  | unsigned _ => simp [isByteSequence]
  | integer _ => simp [isByteSequence]
  | real _ => simp [isByteSequence]
  | boolean => simp [isByteSequence]
  | valueRange _ => simp [isByteSequence]

/-- A type has a size exactly when its values are strings or domains. -/
def ResolvedType.SizeFits (type : ResolvedType) : Prop :=
  type.size.isSome = true ↔ type.kind = .visibleString ∨ type.kind = .domain

/-- A type without a size whose values are neither strings nor domains. -/
structure ResolvedType.IsPlain (type : ResolvedType) : Prop where
  size : type.size = none
  kind : type.kind.isByteSequence = false

theorem ResolvedType.IsPlain.sizeFits {type : ResolvedType} (h : type.IsPlain) :
    type.SizeFits := by
  unfold SizeFits
  rw [← Kind.isByteSequence_iff, h.size, h.kind]
  rfl

theorem ResolvedType.SizeFits.size_eq_none {type : ResolvedType} (h : type.SizeFits)
    (hkind : type.kind.isByteSequence = false) : type.size = none := by
  rw [← Option.not_isSome_iff_eq_none]
  intro hsome
  rw [Kind.isByteSequence_iff.mpr (h.mp hsome)] at hkind
  cases hkind

namespace Family

/-- The families of strings and domains. -/
def IsBytes : Family → Prop
  | string _ => True
  | domain => True
  | _ => False

theorem sizeFits_resolve (family : Family) (n longest : Nat) :
    (family.resolve n longest).SizeFits := by
  cases family with
  | unsigned width => simp [ResolvedType.SizeFits, resolve]
  | integer width => simp [ResolvedType.SizeFits, resolve]
  | real width => simp [ResolvedType.SizeFits, resolve]
  | string declared => simp [ResolvedType.SizeFits, resolve]
  | domain => simp [ResolvedType.SizeFits, resolve]
  | boolean => simp [ResolvedType.SizeFits, resolve]

theorem isByteSequence_resolve_iff {family : Family} {n longest : Nat} :
    (family.resolve n longest).kind.isByteSequence = true ↔ family.IsBytes := by
  cases family with
  | unsigned width => simp [resolve, Kind.isByteSequence, IsBytes]
  | integer width => simp [resolve, Kind.isByteSequence, IsBytes]
  | real width => simp [resolve, Kind.isByteSequence, IsBytes]
  | string declared => simp [resolve, Kind.isByteSequence, IsBytes]
  | domain => simp [resolve, Kind.isByteSequence, IsBytes]
  | boolean => simp [resolve, Kind.isByteSequence, IsBytes]

theorem isSome_size_resolve_iff {family : Family} {n longest : Nat} :
    (family.resolve n longest).size.isSome = true ↔ family.IsBytes :=
  (sizeFits_resolve family n longest).trans
    (Kind.isByteSequence_iff.symm.trans isByteSequence_resolve_iff)

theorem isPlain_resolve {family : Family} (h : ¬ family.IsBytes) (n longest : Nat) :
    (family.resolve n longest).IsPlain where
  size := Option.not_isSome_iff_eq_none.mp fun hsome => h (isSome_size_resolve_iff.mp hsome)
  kind := Bool.eq_false_iff.mpr fun hkind => h (isByteSequence_resolve_iff.mp hkind)

/-- The bracket of a range stands where a family has digits only. -/
theorem classify_eq_none_of_matches {name : String} (h : RangeName.matches? name = true) :
    classify name = none := by
  unfold classify
  dsimp only
  rw [if_neg]
  intro hdigits
  have hnil : (name.toList.dropWhile isTypeLetter).dropWhile Char.isDigit = [] :=
    List.dropWhile_eq_nil_iff.mpr (List.all_eq_true.mp hdigits)
  unfold RangeName.matches? at h
  rw [hnil] at h
  cases h

end Family

/-! ### What a resolver knows -/

namespace Resolver

variable {r r' : Resolver} {name : String} {candidates : List Value} {type : ResolvedType}

/-- The types that a resolver knows by name have no size. -/
def IsPlain (r : Resolver) : Prop :=
  ∀ name type, r.known.lookup name = some type → type.IsPlain

/-- A resolver knows ranges, and types of families that are not bytes. -/
def IsNamed (r : Resolver) : Prop :=
  ∀ name type, r.known.lookup name = some type →
    RangeName.matches? name = true ∨ ∃ family, Family.classify name = some family ∧ ¬ family.IsBytes

theorem lookup_register (r : Resolver) (name : String) (type : ResolvedType) (name' : String) :
    (r.register name type).known.lookup name' =
      if name' = name then some type else r.known.lookup name' := by
  unfold register
  rw [List.lookup_cons]
  by_cases h : name' = name
  · simp [h]
  · simp [h, beq_eq_false_iff_ne.mpr h]

/-- A type that is answered is known, or is that of a family, which is remembered unless it is
sized. -/
theorem resolveFor_cases (h : r.resolveFor name candidates = .ok (type, r')) :
    (r.known.lookup name = some type ∧ r' = r) ∨
      ∃ family, Family.classify name = some family ∧ r.known.lookup name = none ∧
        type = family.resolve r.defaultStringSize (longestBytes candidates) ∧
        (family.IsBytes ∧ r' = r ∨ ¬ family.IsBytes ∧ r' = r.register name type) := by
  unfold resolveFor at h
  cases hknown : r.known.lookup name with
  | some known =>
    rw [hknown] at h
    cases h
    exact Or.inl ⟨rfl, rfl⟩
  | none =>
    rw [hknown] at h
    cases hfamily : Family.classify name with
    | none =>
      rw [hfamily] at h
      cases h
    | some family =>
      rw [hfamily] at h
      cases h
      refine Or.inr ⟨family, rfl, rfl, rfl, ?_⟩
      split
      · rename_i hbytes
        exact Or.inl ⟨Family.isByteSequence_resolve_iff.mp hbytes, rfl⟩
      · rename_i hbytes
        exact Or.inr ⟨fun h => hbytes (Family.isByteSequence_resolve_iff.mpr h), rfl⟩

/-! #### Types without a size -/

theorem isPlain_new (n : Nat) : (new n).IsPlain := fun _ _ h => nomatch h

theorem IsPlain.register (h : r.IsPlain) (htype : type.IsPlain) (name : String) :
    (r.register name type).IsPlain := by
  intro name' type' hlookup
  rw [lookup_register] at hlookup
  split at hlookup
  · cases hlookup
    exact htype
  · exact h name' type' hlookup

theorem IsPlain.resolveFor (h : r.IsPlain)
    (hresolve : r.resolveFor name candidates = .ok (type, r')) : r'.IsPlain := by
  rcases resolveFor_cases hresolve with ⟨-, rfl⟩ | ⟨family, -, -, rfl, ⟨-, rfl⟩ | ⟨hnumber, rfl⟩⟩
  · exact h
  · exact h
  · exact h.register (Family.isPlain_resolve hnumber _ _) name

theorem IsPlain.sizeFits (h : r.IsPlain)
    (hresolve : r.resolveFor name candidates = .ok (type, r')) : type.SizeFits := by
  rcases resolveFor_cases hresolve with ⟨hknown, -⟩ | ⟨family, -, -, rfl, -⟩
  · exact (h name type hknown).sizeFits
  · exact family.sizeFits_resolve _ _

/-- Only a name of bytes gives a type with a size. -/
theorem IsPlain.isPlain_of_resolveFor (h : r.IsPlain)
    (hresolve : r.resolveFor name candidates = .ok (type, r'))
    (hname : ∀ family, Family.classify name = some family → ¬ family.IsBytes) : type.IsPlain := by
  rcases resolveFor_cases hresolve with ⟨hknown, -⟩ | ⟨family, hfamily, -, rfl, -⟩
  · exact h name type hknown
  · exact Family.isPlain_resolve (hname family hfamily) _ _

/-! #### Names -/

theorem isNamed_new (n : Nat) : (new n).IsNamed := fun _ _ h => nomatch h

theorem IsNamed.register (h : r.IsNamed) (hname : RangeName.matches? name = true ∨
      ∃ family, Family.classify name = some family ∧ ¬ family.IsBytes) (type : ResolvedType) :
    (r.register name type).IsNamed := by
  intro name' type' hlookup
  rw [lookup_register] at hlookup
  split at hlookup
  · rename_i heq
    rw [heq]
    exact hname
  · exact h name' type' hlookup

theorem IsNamed.resolveFor (h : r.IsNamed)
    (hresolve : r.resolveFor name candidates = .ok (type, r')) : r'.IsNamed := by
  rcases resolveFor_cases hresolve with
    ⟨-, rfl⟩ | ⟨family, hfamily, -, -, ⟨-, rfl⟩ | ⟨hnumber, rfl⟩⟩
  · exact h
  · exact h
  · exact h.register (Or.inr ⟨family, hfamily, hnumber⟩) type

/-- A name of bytes is not known, so it is answered with a size. -/
theorem IsNamed.isSome_size (h : r.IsNamed)
    (hresolve : r.resolveFor name candidates = .ok (type, r')) {family : Family}
    (hfamily : Family.classify name = some family) (hbytes : family.IsBytes) :
    type.size.isSome = true := by
  rcases resolveFor_cases hresolve with ⟨hknown, -⟩ | ⟨family', hfamily', -, rfl, -⟩
  · exfalso
    rcases h name type hknown with hrange | ⟨family', hfamily', hnumber⟩
    · rw [Family.classify_eq_none_of_matches hrange] at hfamily
      cases hfamily
    · cases hfamily.symm.trans hfamily'
      exact hnumber hbytes
  · cases hfamily.symm.trans hfamily'
    exact Family.isSome_size_resolve_iff.mpr hbytes

end Resolver

namespace Dictionary

variable {d : Dictionary} {k : Nat} {r r' : Resolver}

/-! ### The states of the resolver -/

/-- The states of the resolver in a generation, with the number of ranges that are registered: the
ranges come one after the other, and types are looked up before, between and after them. -/
inductive Passes (d : Dictionary) : Nat → Resolver → Prop
  | start : Passes d 0 (.new d.node.defaultStringSize)
  | range {k : Nat} {r r' : Resolver} {b : Index × Entry} {t : RangeType} (hr : Passes d k r)
      (hb : d.rangeEntries[k]? = some b)
      (hrun : ((d.rangeType (k + 1) b.1 b.2).run r).outcome = .ok (t, r')) : Passes d (k + 1) r'
  | lookup {k : Nat} {r r' : Resolver} {name : String} {candidates : List Value}
      {type : ResolvedType} (hr : Passes d k r)
      (hresolve : r.resolveFor name candidates = .ok (type, r')) : Passes d k r'

theorem Passes.looksUp (hr : d.Passes k r) {α : Type} {m : Lowering α} (hm : Lowering.LooksUp m)
    {a : α} (hrun : (m.run r).outcome = .ok (a, r')) : d.Passes k r' := by
  induction hm generalizing r r' with
  | pure a =>
    cases hrun
    exact hr
  | ofExcept x =>
    cases x with
    | error e => cases hrun
    | ok a =>
      cases hrun
      exact hr
  | resolveFor name candidates => exact hr.lookup hrun
  | bind _ _ ihx ihf =>
    obtain ⟨a', r₁, hx, hf⟩ := Lowering.run_bind_eq_ok_iff.mp hrun
    exact ihf a' (ihx hr hx) hf

theorem Passes.codesReported (hr : d.Passes k r) {sites : List Site} {codes : List EntryCode}
    (hrun : ((sites.mapM Site.codeReported).run r).outcome = .ok (codes, r')) :
    d.Passes k r' := by
  induction sites generalizing r codes with
  | nil =>
    cases hrun
    exact hr
  | cons s sites ih =>
    obtain ⟨c, r₁, hc, cs, r₂, hcs, heq⟩ := Lowering.run_mapM_cons_eq_ok_iff.mp hrun
    cases heq
    unfold Site.codeReported at hc
    rw [Lowering.run_report_bind] at hc
    exact ih (hr.looksUp s.looksUp_code hc) hcs

theorem passes_of_walk {entries : List (Index × Entry)} {ranges : List RangeType}
    (hr : d.Passes k r) (hdrop : d.rangeEntries.drop k = entries)
    (hrun : (((entries.zipIdx (k + 1)).mapM fun ((i, e), number) =>
      d.rangeType number i e).run r).outcome = .ok (ranges, r')) :
    d.Passes (k + entries.length) r' ∧
      ∀ b ∈ entries, ∃ j r₁ t r₂, d.rangeEntries[j]? = some b ∧ d.Passes j r₁ ∧
        ((d.rangeType (j + 1) b.1 b.2).run r₁).outcome = .ok (t, r₂) := by
  induction entries generalizing k r ranges with
  | nil =>
    cases hrun
    exact ⟨hr, fun b hb => absurd hb List.not_mem_nil⟩
  | cons b entries ih =>
    have hb : d.rangeEntries[k]? = some b := by
      rw [← Nat.add_zero k, ← List.getElem?_drop, hdrop]
      rfl
    have hrest : d.rangeEntries.drop (k + 1) = entries := by
      rw [← List.drop_drop, hdrop]
      rfl
    rw [List.zipIdx_cons] at hrun
    obtain ⟨t, r₁, ht, ts, r₂, hts, heq⟩ := Lowering.run_mapM_cons_eq_ok_iff.mp hrun
    cases heq
    obtain ⟨hlast, hmembers⟩ := ih (hr.range hb ht) hrest hts
    refine ⟨?_, List.forall_mem_cons.mpr ⟨⟨k, r, t, r₁, hb, hr, ht⟩, hmembers⟩⟩
    rw [List.length_cons, Nat.add_comm entries.length 1, ← Nat.add_assoc]
    exact hlast

theorem passes_of_rangeTypes {ranges : List RangeType}
    (h : (d.rangeTypes.run (Resolver.new d.node.defaultStringSize)).outcome = .ok (ranges, r)) :
    d.Passes d.rangeEntries.length r ∧
      ∀ b ∈ d.rangeEntries, ∃ j r₁ t r₂, d.rangeEntries[j]? = some b ∧ d.Passes j r₁ ∧
        ((d.rangeType (j + 1) b.1 b.2).run r₁).outcome = .ok (t, r₂) := by
  have hwalk := passes_of_walk (k := 0) .start rfl h
  rwa [Nat.zero_add] at hwalk

/-! ### Ranges over numbers -/

/-- The base types of the ranges are neither strings nor domains. -/
def RangesOverNumbers (d : Dictionary) : Prop :=
  ∀ b ∈ d.rangeEntries, ∀ code name family, rangeBaseCode b.1 b.2 = .ok code →
    d.typeName? code = some name → Family.classify name = some family → ¬ family.IsBytes

/-- All types that are looked up in a generation have a size exactly if they are strings or
domains. -/
def SizesFit (d : Dictionary) : Prop :=
  ∀ k r name candidates type r', d.Passes k r →
    r.resolveFor name candidates = .ok (type, r') → type.SizeFits

theorem isPlain_of_passes (hnumbers : d.RangesOverNumbers) (hr : d.Passes k r) : r.IsPlain := by
  induction hr with
  | start => exact Resolver.isPlain_new _
  | @range k r r' b t _ hb hrun ih =>
    obtain ⟨code, hcode, baseName, hbaseName, base, r₁, hbase, _, -, _, -, _, -, _, -, heq⟩ :=
      rangeType_run_eq_ok_iff.mp hrun
    cases heq
    have hname (family : Family) (hfamily : Family.classify baseName = some family) :
        ¬ family.IsBytes :=
      hnumbers b (List.mem_of_getElem? hb) code baseName family hcode
        (rangeBaseName_eq_ok_iff.mp hbaseName) hfamily
    have hplain : ({ base with kind := .valueRange (.numbered (k + 1)) } : ResolvedType).IsPlain :=
      ⟨(ih.isPlain_of_resolveFor hbase hname).size, rfl⟩
    exact (ih.resolveFor hbase).register hplain b.2.name
  | lookup _ hresolve ih => exact ih.resolveFor hresolve

theorem sizesFit_of_rangesOverNumbers (hnumbers : d.RangesOverNumbers) : d.SizesFit :=
  fun _ _ _ _ _ _ hr hresolve => (isPlain_of_passes hnumbers hr).sizeFits hresolve

theorem matches_of_mem_rangeEntries {b : Index × Entry} (hb : b ∈ d.rangeEntries) :
    RangeName.matches? b.2.name = true :=
  (mem_rangeEntries_iff.mp hb).2.2

theorem isNamed_of_passes (hr : d.Passes k r) : r.IsNamed := by
  induction hr with
  | start => exact Resolver.isNamed_new _
  | @range k r r' b t _ hb hrun ih =>
    obtain ⟨_, -, _, -, base, r₁, hbase, _, -, _, -, _, -, _, -, heq⟩ :=
      rangeType_run_eq_ok_iff.mp hrun
    cases heq
    have hrange := matches_of_mem_rangeEntries (List.mem_of_getElem? hb)
    exact (ih.resolveFor hbase).register (Or.inl hrange) _
  | lookup _ hresolve ih => exact ih.resolveFor hresolve

/-- A range over bytes is registered with their size. -/
theorem rangesOverNumbers_of_sizesFit {ranges : List RangeType}
    (h : (d.rangeTypes.run (Resolver.new d.node.defaultStringSize)).outcome = .ok (ranges, r))
    (hfit : d.SizesFit) : d.RangesOverNumbers := by
  intro b hb code name family hcode hname hfamily hbytes
  obtain ⟨j, r₁, t, r₂, hj, hr₁, hrun⟩ := (passes_of_rangeTypes h).2 b hb
  have hr₂ := hr₁.range hj hrun
  obtain ⟨code', hcode', baseName, hbaseName, base, r₃, hbase, _, -, _, -, _, -, _, -, heq⟩ :=
    rangeType_run_eq_ok_iff.mp hrun
  cases heq
  cases hcode.symm.trans hcode'
  cases hname.symm.trans (rangeBaseName_eq_ok_iff.mp hbaseName)
  have hsize := (isNamed_of_passes hr₁).isSome_size hbase hfamily hbytes
  have hanswer : (r₃.register b.2.name { base with kind := .valueRange (.numbered (j + 1)) }
      ).resolveFor b.2.name [] = .ok ({ base with kind := .valueRange (.numbered (j + 1)) },
        r₃.register b.2.name { base with kind := .valueRange (.numbered (j + 1)) }) := by
    unfold Resolver.resolveFor
    rw [Resolver.lookup_register, if_pos rfl]
  rcases (hfit _ _ _ _ _ _ hr₂ hanswer).mp hsize with hkind | hkind
  · cases hkind
  · cases hkind

end Dictionary

namespace Site

variable {s : Site} {r : Resolver} {c : ShapeCode}

/-! ### Declared variables -/

theorem Declares.single_of_size_eq_none {k : Nat} {v : Declarator} {sub : SubEntry}
    {candidates : List Value} {type : ResolvedType} (h : s.Declares r k v sub candidates type)
    (hsize : type.size = none) : v.pointer = false ∧ v.extent = .single := by
  refine ⟨?_, ?_⟩
  · rw [Bool.eq_false_iff]
    intro hpointer
    have hsome := (h.pointer.mp hpointer).2.2
    rw [hsize] at hsome
    cases hsome
  · rcases h.extent with hsingle | hextent
    · exact hsingle
    · rw [hextent, hsize]
      rfl

end Site

namespace Dictionary

variable {d : Dictionary} {headerName : String} {aliases : PointerAliases} {config : Config}

theorem passes_of_rangesAndCodes {p : List RangeType × List EntryCode} {r : Resolver}
    (h : (d.rangesAndCodes.run (Resolver.new d.node.defaultStringSize)).outcome = .ok (p, r)) :
    d.Passes d.rangeEntries.length r := by
  unfold rangesAndCodes at h
  rw [Lowering.run_report_bind] at h
  obtain ⟨ranges, r₁, hranges, h⟩ := Lowering.run_bind_eq_ok_iff.mp h
  rw [Lowering.run_report_bind] at h
  obtain ⟨codes, r₂, hcodes, h⟩ := Lowering.run_bind_eq_ok_iff.mp h
  cases h
  exact (passes_of_rangeTypes hranges).1.codesReported hcodes

theorem sizeFits_of_resolve {s : Site} {sub : SubEntry} {candidates : List Value}
    {type : ResolvedType} {k : Nat} {r : Resolver} (hfit : d.SizesFit) (hr : d.Passes k r)
    (h : (s.resolve sub candidates).value r = .ok type) : type.SizeFits := by
  obtain ⟨name, -, hanswer⟩ := Site.resolve_value_eq_ok_iff.mp h
  obtain ⟨r', hresolve⟩ := Resolver.answer_eq_ok_iff.mp hanswer
  exact hfit k r name candidates type r' hr hresolve

/-- The variables of an entry are declared with types of a resolver whose sizes fit; what is neither
string nor domain is declared as one variable that is no pointer. -/
def DeclaresFitting (d : Dictionary) (source : SourceDocument) (r : Resolver) (x : Index)
    (e : Entry) : Prop :=
  ∀ k v, (source.declaratorsAt x)[k]? = some v →
    ∃ sub candidates type, (Site.mk d x e).Declares r k v sub candidates type ∧ type.SizeFits ∧
      (type.kind.isByteSequence = false → v.pointer = false ∧ v.extent = .single)

theorem declaresFitting_of_code {source : SourceDocument} {k : Nat} {r : Resolver} {x : Index}
    {e : Entry} {c : EntryCode} (hfit : d.SizesFit) (hr : d.Passes k r)
    (hcode : (Site.mk d x e).code.value r = .ok c)
    (hdeclarators : source.declaratorsAt x = c.shape.declarators) :
    d.DeclaresFitting source r x e := by
  intro k v hv
  rw [hdeclarators] at hv
  obtain ⟨sub, candidates, type, hdeclares⟩ :=
    Site.exists_declares_of_laidOut (Site.laidOut_of_code hcode) hv
  have htype := sizeFits_of_resolve hfit hr hdeclares.resolve
  exact ⟨sub, candidates, type, hdeclares, htype, fun hkind =>
    hdeclares.single_of_size_eq_none (htype.size_eq_none hkind)⟩

/-- **Sizes.**  Exactly where no range is built on a string or a domain, all types that are looked
up in a generation have a size exactly if they are strings or domains.  Then the variables of
numbers, truth values and ranges are no arrays of bytes in either document, and the elements of a
record of such values are no pointers; the text declares each variable in this way. -/
theorem sizes_only_for_bytes (d : Dictionary) :
    (∀ p r, (d.rangesAndCodes.run (.new d.node.defaultStringSize)).outcome = .ok (p, r) →
      d.Passes d.rangeEntries.length r) ∧
    (d.RangesOverNumbers → d.SizesFit) ∧
    ∀ headerName aliases config files,
      (d.generate headerName aliases config).outcome = .ok files →
      (d.SizesFit → d.RangesOverNumbers) ∧
      (d.RangesOverNumbers → ∃ source header r,
        (d.documents headerName aliases config).outcome = .ok (source, header) ∧
        files = ⟨source.text, header.text⟩ ∧ d.Passes d.rangeEntries.length r ∧
        header.declarations = source.definitions.map MappedDefinition.declaration ∧
        (∀ x e, Profile.commAreaStart ≤ x → d.get? x = some e →
          d.DeclaresFitting source r x e) ∧
        ∀ x, ∀ v ∈ source.declaratorsAt x, Declares source.text v) := by
  refine ⟨fun p r h => passes_of_rangesAndCodes h, sizesFit_of_rangesOverNumbers,
    fun headerName aliases config files h => ?_⟩
  obtain ⟨source, header, hdocuments, hfiles⟩ := generate_outcome_eq_ok_iff.mp h
  obtain ⟨ranges, codes, fallbacks, timers, hvalue, hfallbacks, -, hof⟩ :=
    documents_outcome_eq_ok_iff.mp hdocuments
  obtain ⟨r, hranges, hcodes⟩ := rangesAndCodes_value_eq_ok_iff.mp hvalue
  have hsource := congrArg Prod.fst hof.symm
  have hr := (passes_of_rangeTypes hranges).1
  refine ⟨rangesOverNumbers_of_sizesFit hranges, fun hnumbers =>
    ⟨source, header, r, hdocuments, hfiles.symm, hr, ?_, fun x e hstart hget => ?_,
      fun x v hv => SourceDocument.declares_of_mem_declaratorsAt hv⟩⟩
  · rw [definitions_documentsOf hsource, ← declarations_of_entryCodes hcodes,
      show header = _ from congrArg Prod.snd hof.symm]
    simp [documentsOf, Emission.withFallbacks, Emission.ofCodes_eq]
  · obtain ⟨c, hc, hcode, rfl, hblock⟩ :=
      exists_block_of_get? hcodes hfallbacks hsource hstart hget
    have hdeclarators := declaratorsAt_of_mem_codes hcodes hsource hc hblock
    exact declaresFitting_of_code (sizesFit_of_rangesOverNumbers hnumbers) hr hcode hdeclarators

theorem rangesOverNumbers_drive : drive.RangesOverNumbers := by
  have hentries : drive.rangeEntries = [(0x0040, .ofRange "UNSIGNED8[0-100]" 0x0005 0 100)] := by
    decide +kernel
  intro b hb code name family hcode hname hfamily
  rw [hentries, List.mem_singleton] at hb
  subst hb
  cases (rfl : rangeBaseCode 0x0040 (.ofRange "UNSIGNED8[0-100]" 0x0005 0 100) =
    .ok 0x0005).symm.trans hcode
  cases (by decide +kernel : drive.typeName? 0x0005 = some "UNSIGNED8").symm.trans hname
  cases (by decide +kernel :
    Family.classify "UNSIGNED8" = some (.unsigned 8)).symm.trans hfamily
  exact id

theorem sizes_only_for_bytes_drive :
    drive.RangesOverNumbers ∧ drive.SizesFit ∧ ∃ source header r e,
      (drive.documents "Drive.h" .empty {}).outcome = .ok (source, header) ∧
      drive.get? 0x2000 = some e ∧ drive.DeclaresFitting source r 0x2000 e ∧
      source.declaratorsAt 0x2000 = [⟨.unsigned 8, false, "Setpoint", .single⟩] := by
  obtain ⟨files, source, header, h, hdocuments, hdrive⟩ := exists_documents_drive
  obtain ⟨-, hfit, hgenerate⟩ := sizes_only_for_bytes drive
  obtain ⟨source', header', r, hdocuments', -, -, -, hdeclares, -⟩ :=
    (hgenerate "Drive.h" .empty {} files h).2 rangesOverNumbers_drive
  cases hdocuments.symm.trans hdocuments'
  obtain ⟨e, hget⟩ := Option.isSome_iff_exists.mp (by decide : (drive.get? 0x2000).isSome = true)
  have hsetpoint := SourceDocument.declaratorsAt_of_items hdrive.setpoint
  rw [hdrive.definitions] at hsetpoint
  exact ⟨rangesOverNumbers_drive, hfit rangesOverNumbers_drive, source, header, r, e, hdocuments,
    hget, hdeclares 0x2000 e (by decide) hget, hsetpoint⟩

/-- A level of a range that is built on strings. -/
def padded : Dictionary :=
  { node := { name := "Node" }
    entries := .ofList
      [(0x0040, .ofRange "UNSIGNED8[0-100]" 0x0009 0 100),
        (0x2000, .ofVariable "Level" ⟨"Level", 0x0040, .readWrite, false, false⟩
          (.unsigned 75))] }

/-- The range of the level has the size of a string, and the level is declared as an array of so
many bytes. -/
theorem not_forall_sizesFit :
    (¬ ∀ (d : Dictionary) (headerName : String) (aliases : PointerAliases) (config : Config)
        (files : DocumentPair),
      (d.generate headerName aliases config).outcome = .ok files → d.SizesFit) ∧
    ¬ ∀ (d : Dictionary) (headerName : String) (aliases : PointerAliases) (config : Config)
        (source : SourceDocument) (header : HeaderDocument),
      (d.documents headerName aliases config).outcome = .ok (source, header) →
      ∀ (x : Index) (rows : List Row) (k : Nat) (row : Row) (v : Declarator),
        source.HasRows x rows → rows[k]? = some row → (source.declaratorsAt x)[k]? = some v →
          row.type.kind.isByteSequence = false → v.extent = .single := by
  constructor
  · intro hall
    obtain ⟨files, h⟩ := exists_eq_ok_of_isOk
      (by decide +kernel : (padded.generate "Node.h" .empty {}).outcome.isOk = true)
    have hfit := hall padded "Node.h" .empty {} files h
    obtain ⟨ranges, r, hranges, -⟩ := exists_generate_iff.mp ⟨files, h⟩
    have hnumbers := rangesOverNumbers_of_sizesFit hranges hfit
    have hrange : (0x0040, .ofRange "UNSIGNED8[0-100]" 0x0009 0 100) ∈ padded.rangeEntries := by
      decide +kernel
    exact hnumbers _ hrange 0x0009 "VISIBLE_STRING" (.string none) rfl (by decide +kernel)
      (by decide +kernel) trivial
  · intro hall
    obtain ⟨⟨source, header⟩, h⟩ := exists_eq_ok_of_isOk
      (by decide +kernel : (padded.documents "Node.h" .empty {}).outcome.isOk = true)
    have hseen : (padded.documents "Node.h" .empty {}).outcome.toOption.map
        (fun p => ((p.1.blocks.get? 0x2000).map Block.items, p.1.declaratorsAt 0x2000)) =
          some (some [.table "Node_Index2000" [⟨.readWrite, false,
              ⟨.unsigned 8, some 10, .valueRange (.numbered 1), false⟩, .sizeOf (.unsigned 8),
              "Level"⟩]],
            [⟨.unsigned 8, false, "Level", .fixed 10⟩]) := by
      decide +kernel
    rw [h] at hseen
    obtain ⟨hitems, hdeclarators⟩ := Prod.mk.inj (Option.some.inj hseen)
    have htable := SourceDocument.hasRows_of_items hitems List.mem_cons_self
    have hv := congrArg (fun vs => vs[0]?) hdeclarators
    cases hall padded "Node.h" .empty {} source header h 0x2000 _ 0 _ _ htable rfl hv rfl

end Dictionary
end CanopenTables
