import CanopenTables.DataType.Resolver
import CanopenTables.Proofs.Outcome

/-!
# What a resolver answers

A resolver remembers the types it has worked out, so its state changes while entries are laid out.
What it answers does not: `Resolver.answer` is unchanged by resolving (`answer_of_resolveFor`) and
changed by registering at one name only (`answer_register`).

A computation that only asks for types (`Lowering.Asks`) has therefore a value that depends on the
answers alone, and the state can be put aside: for such computations the value of a sequence is
the sequence of the values (`value_bind`, `value_mapM`).  All that is made of lookups
(`Lowering.LooksUp`) is of this sort.
-/

namespace CanopenTables

/-- The size of a string or a domain is all that a family takes from the values at hand. -/
theorem Family.resolve_eq_of_not_isByteSequence {family : Family} {n longest : Nat}
    (h : (family.resolve n longest).kind.isByteSequence = false) (longest' : Nat) :
    family.resolve n longest' = family.resolve n longest := by
  cases family with
  | string declared => simp [Family.resolve, Kind.isByteSequence] at h
  | domain => simp [Family.resolve, Kind.isByteSequence] at h
  | unsigned width => rfl
  | integer width => rfl
  | real width => rfl
  | boolean => rfl

namespace Resolver

/-- The type that a resolver gives a name, apart from what it remembers of the answer. -/
def answer (r : Resolver) (name : String) (candidates : List Value) :
    Except GenerationError ResolvedType :=
  Prod.fst <$> r.resolveFor name candidates

theorem answer_eq_ok_iff {r : Resolver} {name : String} {candidates : List Value}
    {type : ResolvedType} :
    r.answer name candidates = .ok type ↔ ∃ r', r.resolveFor name candidates = .ok (type, r') := by
  unfold answer
  rw [map_eq_ok_iff]
  constructor
  · rintro ⟨⟨_, r'⟩, h, rfl⟩
    exact ⟨r', h⟩
  · rintro ⟨r', h⟩
    exact ⟨_, h, rfl⟩

theorem answer_of_lookup_eq_some {r : Resolver} {name : String} {type : ResolvedType}
    (h : r.known.lookup name = some type) (candidates : List Value) :
    r.answer name candidates = .ok type := by
  simp [answer, resolveFor, h, Functor.map, Except.map]

theorem answer_of_lookup_eq_none {r : Resolver} {name : String}
    (h : r.known.lookup name = none) (candidates : List Value) :
    r.answer name candidates = (new r.defaultStringSize).answer name candidates := by
  simp only [answer, resolveFor, h, new, List.lookup_nil]
  cases Family.classify name with
  | none => rfl
  | some family => rfl

theorem answer_new (n : Nat) (name : String) (candidates : List Value) :
    (new n).answer name candidates =
      match Family.classify name with
      | none => .error (.unresolvableType name)
      | some family => .ok (family.resolve n (longestBytes candidates)) := by
  simp only [answer, resolveFor, new, List.lookup_nil]
  cases Family.classify name with
  | none => rfl
  | some family => rfl

theorem answer_register (r : Resolver) (name : String) (type : ResolvedType) (name' : String)
    (candidates : List Value) :
    (r.register name type).answer name' candidates =
      if name' = name then .ok type else r.answer name' candidates := by
  by_cases h : name' = name
  · rw [if_pos h]
    exact answer_of_lookup_eq_some (by simp [register, h]) candidates
  · have hlookup : (r.register name type).known.lookup name' = r.known.lookup name' := by
      simp [register, List.lookup_cons, beq_eq_false_iff_ne.mpr h]
    rw [if_neg h]
    cases hr : r.known.lookup name' with
    | none =>
      rw [answer_of_lookup_eq_none (hlookup.trans hr), answer_of_lookup_eq_none hr]
      rfl
    | some type' =>
      rw [answer_of_lookup_eq_some (hlookup.trans hr), answer_of_lookup_eq_some hr]

/-- Resolving a name leaves all answers as they are: what is remembered is what would be worked out
again. -/
theorem answer_of_resolveFor {r r' : Resolver} {name : String} {candidates : List Value}
    {type : ResolvedType} (h : r.resolveFor name candidates = .ok (type, r')) :
    r'.answer = r.answer := by
  unfold resolveFor at h
  cases hr : r.known.lookup name with
  | some known =>
    simp only [hr, Except.ok.injEq, Prod.mk.injEq] at h
    rw [h.2]
  | none =>
    cases hc : Family.classify name with
    | none => simp [hr, hc] at h
    | some family =>
      simp only [hr, hc, Except.ok.injEq, Prod.mk.injEq] at h
      obtain ⟨rfl, rfl⟩ := h
      split
      · rfl
      · -- a type that is remembered does not depend on the candidates
        rename_i hkind
        funext name' candidates'
        rw [answer_register]
        split
        · rename_i hname
          have hsame := Family.resolve_eq_of_not_isByteSequence (Bool.eq_false_iff.mpr hkind)
            (longestBytes candidates')
          rw [hname, answer_of_lookup_eq_none hr, answer_new, hc]
          simp only [hsame]
        · rfl

end Resolver

namespace Lowering

variable {α β : Type} {r r' : Resolver}

/-- The result of a computation, apart from the resolver and the notices that it leaves. -/
def value (m : Lowering α) (r : Resolver) : Except GenerationError α := (m.run' r).outcome

theorem value_eq_map (m : Lowering α) (r : Resolver) :
    m.value r = Prod.fst <$> (m.run r).outcome := by
  show (StateT.run' m r).outcome = _
  rw [StateT.run', map_eq_pure_bind, Reported.outcome_bind, map_eq_pure_bind]
  rfl

/-- A computation that only asks for types: its value depends on the answers alone, and it leaves
a resolver that answers alike. -/
structure Asks (m : Lowering α) : Prop where
  value_congr : ∀ {r r' : Resolver}, r.answer = r'.answer → m.value r = m.value r'
  answer_of_run : ∀ {r : Resolver} {a : α} {r' : Resolver},
    (m.run r).outcome = .ok (a, r') → r'.answer = r.answer

/-! ### Values of the basic computations -/

@[simp] theorem value_pure (a : α) : (pure a : Lowering α).value r = .ok a := rfl

@[simp] theorem value_ofExcept (x : Except GenerationError α) : (ofExcept x).value r = x := by
  rw [value_eq_map]
  cases x with
  | error e => rfl
  | ok a => rfl

@[simp] theorem value_liftM (x : Except GenerationError α) :
    (liftM x : Lowering α).value r = x :=
  value_ofExcept x

@[simp] theorem value_fail (e : GenerationError) : (fail e : Lowering α).value r = .error e :=
  value_ofExcept _

@[simp] theorem value_report (n : Notice) : (report n).value r = .ok () := rfl

@[simp] theorem value_resolveFor (name : String) (candidates : List Value) :
    (resolveFor name candidates).value r = r.answer name candidates :=
  value_eq_map _ r

/-- The value of a sequence is the sequence of the values, when the second step sees only answers
and the first one keeps them. -/
theorem value_bind {x : Lowering α} {f : α → Lowering β} (hx : x.Asks) (hf : ∀ a, (f a).Asks) :
    (x >>= f).value r = x.value r >>= fun a => (f a).value r := by
  rw [value_eq_map, value_eq_map x, StateT.run_bind, Reported.outcome_bind]
  cases hrun : (x.run r).outcome with
  | error e => rfl
  | ok p =>
    show Prod.fst <$> ((f p.1).run p.2).outcome = (f p.1).value r
    rw [← value_eq_map]
    exact (hf p.1).value_congr (hx.answer_of_run hrun)

/-- A first step without a resolver needs no such conditions. -/
theorem value_liftM_bind (x : Except GenerationError α) (f : α → Lowering β) :
    ((liftM x : Lowering α) >>= f).value r = x >>= fun a => (f a).value r := by
  rw [value_eq_map, StateT.run_bind, Reported.outcome_bind]
  cases x with
  | error e => rfl
  | ok a => exact (value_eq_map (f a) r).symm

/-! ### Runs

Where a type is registered the answers change, and it is the run that has to be followed. -/

theorem run_bind_eq_ok_iff {x : Lowering α} {f : α → Lowering β} {p : β × Resolver} :
    ((x >>= f).run r).outcome = .ok p ↔
      ∃ a r', (x.run r).outcome = .ok (a, r') ∧ ((f a).run r').outcome = .ok p := by
  rw [StateT.run_bind, Reported.outcome_bind, bind_eq_ok_iff]
  constructor
  · rintro ⟨⟨a, r'⟩, hx, hf⟩
    exact ⟨a, r', hx, hf⟩
  · rintro ⟨a, r', hx, hf⟩
    exact ⟨(a, r'), hx, hf⟩

theorem run_liftM_bind (x : Except GenerationError α) (f : α → Lowering β) :
    (((liftM x : Lowering α) >>= f).run r).outcome = x >>= fun a => ((f a).run r).outcome := by
  rw [StateT.run_bind, Reported.outcome_bind]
  cases x with
  | error e => rfl
  | ok a => rfl

theorem run_register_bind (name : String) (type : ResolvedType) (f : Unit → Lowering β) :
    ((register name type >>= f).run r).outcome = ((f ()).run (r.register name type)).outcome := by
  rw [StateT.run_bind, Reported.outcome_bind]
  rfl

theorem run_report_bind (n : Notice) (f : Unit → Lowering β) :
    ((report n >>= f).run r).outcome = ((f ()).run r).outcome := by
  rw [StateT.run_bind, Reported.outcome_bind]
  rfl

theorem run_mapM_cons_eq_ok_iff {f : α → Lowering β} {a : α} {l : List α}
    {p : List β × Resolver} :
    (((a :: l).mapM f).run r).outcome = .ok p ↔
      ∃ b r', ((f a).run r).outcome = .ok (b, r') ∧
        ∃ bs r'', ((l.mapM f).run r').outcome = .ok (bs, r'') ∧ (b :: bs, r'') = p := by
  rw [List.mapM_cons, run_bind_eq_ok_iff]
  refine exists_congr fun b => exists_congr fun r' => and_congr_right fun _ => ?_
  rw [run_bind_eq_ok_iff]
  refine exists_congr fun bs => exists_congr fun r'' => and_congr_right fun _ => ?_
  show (Except.ok (b :: bs, r'') : Except GenerationError _) = .ok p ↔ _
  rw [Except.ok.injEq]

/-! ### Computations that only ask -/

namespace Asks

theorem pure (a : α) : Asks (Pure.pure a : Lowering α) where
  value_congr _ := rfl
  answer_of_run h := by
    cases h
    rfl

theorem ofExcept (x : Except GenerationError α) : Asks (ofExcept x) where
  value_congr _ := by rw [value_ofExcept, value_ofExcept]
  answer_of_run h := by
    cases x with
    | error e => cases h
    | ok a =>
      cases h
      rfl

theorem liftM (x : Except GenerationError α) : Asks (liftM x : Lowering α) := ofExcept x

theorem fail (e : GenerationError) : Asks (fail e : Lowering α) := ofExcept _

theorem report (n : Notice) : Asks (report n) where
  value_congr _ := rfl
  answer_of_run h := by
    cases h
    rfl

theorem resolveFor (name : String) (candidates : List Value) :
    Asks (resolveFor name candidates) where
  value_congr h := by rw [value_resolveFor, value_resolveFor, h]
  answer_of_run h := Resolver.answer_of_resolveFor h

theorem bind {x : Lowering α} {f : α → Lowering β} (hx : x.Asks) (hf : ∀ a, (f a).Asks) :
    Asks (x >>= f) where
  value_congr h := by
    rw [value_bind hx hf, value_bind hx hf, hx.value_congr h]
    exact congrArg _ (funext fun a => (hf a).value_congr h)
  answer_of_run h := by
    rw [StateT.run_bind, Reported.outcome_bind] at h
    obtain ⟨⟨a, r₁⟩, hrun, h⟩ := bind_eq_ok_iff.mp h
    exact ((hf a).answer_of_run h).trans (hx.answer_of_run hrun)

theorem ite {c : Prop} [Decidable c] {x y : Lowering α} (hx : x.Asks) (hy : y.Asks) :
    Asks (if c then x else y) := by
  split
  · exact hx
  · exact hy

theorem mapM {f : α → Lowering β} (hf : ∀ a, (f a).Asks) (l : List α) : Asks (l.mapM f) := by
  induction l with
  | nil =>
    rw [List.mapM_nil]
    exact pure []
  | cons a l ih =>
    rw [List.mapM_cons]
    exact (hf a).bind fun b => ih.bind fun bs => pure (b :: bs)

end Asks

/-! ### Computations that only look types up -/

/-- A computation made of lookups and of results of other parts: it neither registers nor
reports. -/
inductive LooksUp : {α : Type} → Lowering α → Prop where
  | pure {α : Type} (a : α) : LooksUp (Pure.pure a)
  | ofExcept {α : Type} (x : Except GenerationError α) : LooksUp (ofExcept x)
  | resolveFor (name : String) (candidates : List Value) : LooksUp (resolveFor name candidates)
  | bind {α β : Type} {x : Lowering α} {f : α → Lowering β} (hx : LooksUp x)
      (hf : ∀ a, LooksUp (f a)) : LooksUp (x >>= f)

namespace LooksUp

theorem liftM (x : Except GenerationError α) : LooksUp (liftM x : Lowering α) := ofExcept x

theorem fail (e : GenerationError) : LooksUp (fail e : Lowering α) := ofExcept _

theorem ite {c : Prop} [Decidable c] {x y : Lowering α} (hx : LooksUp x) (hy : LooksUp y) :
    LooksUp (if c then x else y) := by
  split
  · exact hx
  · exact hy

theorem mapM {f : α → Lowering β} (hf : ∀ a, LooksUp (f a)) (l : List α) :
    LooksUp (l.mapM f) := by
  induction l with
  | nil =>
    rw [List.mapM_nil]
    exact pure []
  | cons a l ih =>
    rw [List.mapM_cons]
    exact (hf a).bind fun b => ih.bind fun bs => pure (b :: bs)

theorem asks {m : Lowering α} (h : LooksUp m) : m.Asks := by
  induction h with
  | pure a => exact .pure a
  | ofExcept x => exact .ofExcept x
  | resolveFor name candidates => exact .resolveFor name candidates
  | bind _ _ hx hf => exact hx.bind hf

end LooksUp

theorem value_mapM {f : α → Lowering β} (hf : ∀ a, (f a).Asks) (l : List α) :
    (l.mapM f).value r = l.mapM fun a => (f a).value r := by
  induction l with
  | nil => rfl
  | cons a l ih =>
    rw [List.mapM_cons, List.mapM_cons, value_bind (hf a) fun b =>
      (Asks.mapM hf l).bind fun bs => Asks.pure (b :: bs)]
    congr 1
    funext b
    rw [value_bind (Asks.mapM hf l) fun bs => Asks.pure (b :: bs), ih]
    rfl

end Lowering
end CanopenTables
