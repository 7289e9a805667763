import CanopenTables.Proofs.Answers
import Mathlib.Order.Bounds.Basic

/-!
# Histories of calls of a resolver

A resolver keeps in one list what was registered by name and what it has worked out itself.  Seen
from outside there is no second kind of entry: after any history of calls, the answer to a name is
the type last registered under it, and where nothing was registered it follows from the default
size, the name and the candidates alone.

* The **rule** for a name without a registration is told apart from the resolver (`Rule`), sizes as
  least bounds; a resolver that knows no names follows it (`rule_iff`).
* **One call** that does not register leaves all answers as they are (`answer_next_of_asks`), and a
  registration changes the answers to its own name only.
* **A history** therefore answers as its last registration of a name does (`answer_afterAll_iff`).

Main statement: `cache_unobservable`.
-/

namespace CanopenTables

/-! ### Sizes -/

theorem Value.byteLength?_visibleString (s : String) :
    (visibleString s).byteLength? = some s.utf8ByteSize := by
  have hsize : (s.toList.flatMap String.utf8EncodeChar).length = s.utf8ByteSize := by
    rw [String.utf8ByteSize, ← String.utf8Encode_toList, List.utf8Encode]
    simp
  show some (s.toList.flatMap String.utf8EncodeChar).length = _
  rw [hsize]

/-- A number of bytes has room for all texts and domains among some values. -/
def HasRoomFor (size : Nat) (candidates : List Value) : Prop :=
  (∀ s, .visibleString s ∈ candidates → s.utf8ByteSize ≤ size) ∧
    ∀ bytes, .domain bytes ∈ candidates → bytes.length ≤ size

theorem hasRoomFor_iff {size : Nat} {candidates : List Value} :
    HasRoomFor size candidates ↔ ∀ v ∈ candidates, ∀ k, v.byteLength? = some k → k ≤ size := by
  constructor
  · rintro ⟨htexts, hdomains⟩ v hv k hk
    cases v with
    | visibleString s =>
      rw [Value.byteLength?_visibleString, Option.some.injEq] at hk
      rw [← hk]
      exact htexts s hv
    | domain bytes =>
      cases hk
      exact hdomains bytes hv
    | boolean _ => cases hk
    | integer _ => cases hk
    | unsigned _ => cases hk
    | real _ => cases hk
  · intro h
    refine ⟨fun s hs => ?_, fun bytes hbytes => ?_⟩
    · exact h _ hs _ (Value.byteLength?_visibleString s)
    · exact h _ hbytes _ rfl

theorem foldl_max_le_iff {l : List Nat} {start size : Nat} :
    l.foldl max start ≤ size ↔ start ≤ size ∧ ∀ k ∈ l, k ≤ size := by
  induction l generalizing start with
  | nil => simp
  | cons k l ih =>
    rw [List.foldl_cons, ih, Nat.max_le, List.forall_mem_cons, and_assoc]

theorem longestBytes_le_iff {candidates : List Value} {size : Nat} :
    longestBytes candidates ≤ size ↔ HasRoomFor size candidates := by
  unfold longestBytes
  rw [foldl_max_le_iff, hasRoomFor_iff]
  simp only [Nat.zero_le, true_and, List.mem_filterMap]
  constructor
  · intro h v hv k hk
    exact h k ⟨v, hv, hk⟩
  · rintro h k ⟨v, hv, hk⟩
    exact h v hv k hk

theorem isLeast_longestBytes (candidates : List Value) :
    IsLeast {size | HasRoomFor size candidates} (longestBytes candidates) :=
  ⟨longestBytes_le_iff.mp le_rfl, fun _ hroom => longestBytes_le_iff.mpr hroom⟩

theorem isLeast_stringSize (n : Nat) (declared : Option Nat) (candidates : List Value) :
    IsLeast {size | n ≤ size ∧ (∀ k ∈ declared, k ≤ size) ∧ HasRoomFor size candidates}
      (max (max n (longestBytes candidates)) (declared.getD 0)) := by
  constructor
  · refine ⟨by omega, ?_, longestBytes_le_iff.mp (by omega)⟩
    intro k hk
    rw [Option.mem_def] at hk
    rw [hk, Option.getD_some]
    omega
  · rintro size ⟨hdefault, hdeclared, hroom⟩
    have hlongest := longestBytes_le_iff.mpr hroom
    have hlength : declared.getD 0 ≤ size := by
      cases declared with
      | none => exact Nat.zero_le size
      | some k => exact hdeclared k rfl
    omega

namespace Resolver

/-! ### The rule for a name that is not registered -/

/-- What a name means by itself, given a default size and some candidates. -/
inductive Rule (n : Nat) (name : String) (candidates : List Value) :
    Except GenerationError ResolvedType → Prop where
  | unsigned {width : Nat} (h : Family.classify name = some (.unsigned width)) :
      Rule n name candidates (.ok ⟨.unsigned width, none, .unsigned width, true⟩)
  | integer {width : Nat} (h : Family.classify name = some (.integer width)) :
      Rule n name candidates (.ok ⟨.integer width, none, .integer width, false⟩)
  | real {width : Nat} (h : Family.classify name = some (.real width)) :
      Rule n name candidates (.ok ⟨.real width, none, .real width, false⟩)
  | boolean (h : Family.classify name = some .boolean) :
      Rule n name candidates (.ok ⟨.unsigned 8, none, .boolean, false⟩)
  | string {declared : Option Nat} {size : Nat}
      (h : Family.classify name = some (.string declared))
      (hsize : IsLeast {m | n ≤ m ∧ (∀ k ∈ declared, k ≤ m) ∧ HasRoomFor m candidates} size) :
      Rule n name candidates (.ok ⟨.unsigned 8, some size, .visibleString, false⟩)
  | domain {size : Nat} (h : Family.classify name = some .domain)
      (hsize : IsLeast {m | HasRoomFor m candidates} size) :
      Rule n name candidates (.ok ⟨.unsigned 8, some size, .domain, false⟩)
  | unresolvable (h : Family.classify name = none) :
      Rule n name candidates (.error (.unresolvableType name))

variable {n : Nat} {name : String} {candidates : List Value}
  {x : Except GenerationError ResolvedType}

/-- The rule has an answer for every name: that of a resolver which knows no names. -/
theorem rule_answer_new (n : Nat) (name : String) (candidates : List Value) :
    Rule n name candidates ((new n).answer name candidates) := by
  rw [answer_new]
  cases h : Family.classify name with
  | none => exact .unresolvable h
  | some family =>
    cases family with
    | unsigned width => exact .unsigned h
    | integer width => exact .integer h
    | real width => exact .real h
    | string declared => exact .string h (isLeast_stringSize n declared candidates)
    | domain => exact .domain h (isLeast_longestBytes candidates)
    | boolean => exact .boolean h

/-- It has no second one, because least sizes are unique. -/
theorem rule_iff : Rule n name candidates x ↔ (new n).answer name candidates = x := by
  constructor
  · intro hrule
    rw [answer_new]
    cases hrule with
    | unsigned h => rw [h]; rfl
    | integer h => rw [h]; rfl
    | real h => rw [h]; rfl
    | boolean h => rw [h]; rfl
    | string h hsize => rw [h, hsize.unique (isLeast_stringSize n _ candidates)]; rfl
    | domain h hsize => rw [h, hsize.unique (isLeast_longestBytes candidates)]; rfl
    | unresolvable h => rw [h]
  · rintro rfl
    exact rule_answer_new n name candidates

/-! ### One call -/

/-- A call of a resolver. -/
inductive Call where
  | register (name : String) (type : ResolvedType)
  | resolve (name : String)
  | resolveFor (name : String) (candidates : List Value)
  deriving DecidableEq

/-- What a call gives back; a registration gives nothing. -/
def reply? (r : Resolver) : Call → Option (Except GenerationError ResolvedType)
  | .register _ _ => none
  | .resolve name => some (Prod.fst <$> r.resolve name)
  | .resolveFor name candidates => some (Prod.fst <$> r.resolveFor name candidates)

/-- The resolver after a call of it that can fail; a failure leaves it as it was. -/
def keeping (r : Resolver) : Except GenerationError (ResolvedType × Resolver) → Resolver
  | .ok (_, r') => r'
  | .error _ => r

/-- The resolver after a call. -/
def next (r : Resolver) : Call → Resolver
  | .register name type => r.register name type
  | .resolve name => r.keeping (r.resolve name)
  | .resolveFor name candidates => r.keeping (r.resolveFor name candidates)

/-- A call that does not register. -/
def Call.Asks (c : Call) : Prop := ∀ name type, c ≠ .register name type

theorem answer_keeping (r : Resolver) (name : String) (candidates : List Value) :
    (r.keeping (r.resolveFor name candidates)).answer = r.answer := by
  cases h : r.resolveFor name candidates with
  | error e => rfl
  | ok p => exact answer_of_resolveFor h

theorem answer_next_of_asks {r : Resolver} {c : Call} (hc : c.Asks) :
    (r.next c).answer = r.answer := by
  cases c with
  | register name type => exact absurd rfl (hc name type)
  | resolve name => exact answer_keeping r name []
  | resolveFor name candidates => exact answer_keeping r name candidates

theorem Call.asks_or_eq_register (c : Call) : c.Asks ∨ ∃ name type, c = .register name type := by
  cases c with
  | register name type => exact Or.inr ⟨name, type, rfl⟩
  | resolve name => exact Or.inl fun _ _ heq => nomatch heq
  | resolveFor name candidates => exact Or.inl fun _ _ heq => nomatch heq

/-- Nothing but the answers goes into a reply. -/
theorem reply?_congr {r r' : Resolver} (h : r.answer = r'.answer) (c : Call) :
    r.reply? c = r'.reply? c := by
  cases c with
  | register name type => rfl
  | resolve name => exact congrArg some (congrFun (congrFun h name) [])
  | resolveFor name candidates => exact congrArg some (congrFun (congrFun h name) candidates)

theorem answer_next_congr {r r' : Resolver} (h : r.answer = r'.answer) (c : Call) :
    (r.next c).answer = (r'.next c).answer := by
  rcases c.asks_or_eq_register with hc | ⟨name, type, rfl⟩
  · rw [answer_next_of_asks hc, answer_next_of_asks hc, h]
  · funext name' candidates'
    show (r.register name type).answer _ _ = (r'.register name type).answer _ _
    rw [answer_register, answer_register, h]

/-! ### Histories -/

/-- The resolver after calls one after another. -/
def afterAll (r : Resolver) (calls : List Call) : Resolver := calls.foldl next r

/-- What calls one after another give back. -/
def replies : Resolver → List Call → List (Option (Except GenerationError ResolvedType))
  | _, [] => []
  | r, c :: calls => r.reply? c :: (r.next c).replies calls

theorem afterAll_cons (r : Resolver) (c : Call) (calls : List Call) :
    r.afterAll (c :: calls) = (r.next c).afterAll calls := rfl

theorem afterAll_append (r : Resolver) (calls calls' : List Call) :
    r.afterAll (calls ++ calls') = (r.afterAll calls).afterAll calls' :=
  List.foldl_append

theorem getElem?_replies (r : Resolver) (calls : List Call) (k : Nat) :
    (r.replies calls)[k]? = calls[k]?.map (r.afterAll (calls.take k)).reply? := by
  induction calls generalizing r k with
  | nil => rfl
  | cons c calls ih =>
    cases k with
    | zero => rfl
    | succ k => exact ih (r.next c) k

theorem replies_congr {r r' : Resolver} (h : r.answer = r'.answer) (calls : List Call) :
    r.replies calls = r'.replies calls := by
  induction calls generalizing r r' with
  | nil => rfl
  | cons c calls ih =>
    show r.reply? c :: (r.next c).replies calls = r'.reply? c :: (r'.next c).replies calls
    rw [reply?_congr h, ih (answer_next_congr h c)]

/-- A call that only asks can be left out: the others get the replies that they got. -/
theorem replies_eraseIdx {r : Resolver} {calls : List Call} {k : Nat} {c : Call}
    (hk : calls[k]? = some c) (hc : c.Asks) :
    r.replies (calls.eraseIdx k) = (r.replies calls).eraseIdx k := by
  induction calls generalizing r k with
  | nil => rfl
  | cons c' calls ih =>
    cases k with
    | zero =>
      cases hk
      show r.replies calls = (r.next c).replies calls
      exact replies_congr (answer_next_of_asks hc).symm calls
    | succ k => exact congrArg (r.reply? c' :: ·) (ih hk)

theorem asks_of_reply?_eq_error {r : Resolver} {c : Call} {e : GenerationError}
    (h : r.reply? c = some (.error e)) : c.Asks := by
  rintro name type rfl
  cases h

theorem answer_afterAll_of_not_mem {r : Resolver} {calls : List Call} {name : String}
    (h : ∀ type, .register name type ∉ calls) :
    (r.afterAll calls).answer name = r.answer name := by
  induction calls generalizing r with
  | nil => rfl
  | cons c calls ih =>
    have hstep : (r.next c).answer name = r.answer name := by
      rcases c.asks_or_eq_register with hc | ⟨name', type, rfl⟩
      · rw [answer_next_of_asks hc]
      · have hname : name ≠ name' := by
          rintro rfl
          exact h type List.mem_cons_self
        funext candidates
        show (r.register name' type).answer name candidates = _
        rw [answer_register, if_neg hname]
    rw [afterAll_cons, ih fun type hmem => h type (List.mem_cons_of_mem _ hmem), hstep]

/-- A name that is registered in a history is registered there a last time. -/
theorem exists_last_register {calls : List Call} {name : String}
    (h : ∃ type, .register name type ∈ calls) :
    ∃ before type after, calls = before ++ .register name type :: after ∧
      ∀ type', .register name type' ∉ after := by
  induction calls with
  | nil =>
    obtain ⟨type, hmem⟩ := h
    cases hmem
  | cons c calls ih =>
    by_cases hlater : ∃ type, .register name type ∈ calls
    · obtain ⟨before, type, after, rfl, hlast⟩ := ih hlater
      exact ⟨c :: before, type, after, rfl, hlast⟩
    · obtain ⟨type, hmem⟩ := h
      rcases List.mem_cons.mp hmem with rfl | hmem
      · exact ⟨[], type, calls, rfl, not_exists.mp hlater⟩
      · exact absurd ⟨type, hmem⟩ hlater

/-- What a name means after a history of calls of a resolver of some default size. -/
inductive Means (n : Nat) (calls : List Call) (name : String) (candidates : List Value) :
    Except GenerationError ResolvedType → Prop where
  /-- The type that was last registered under the name. -/
  | registered {before after : List Call} {type : ResolvedType}
      (h : calls = before ++ .register name type :: after)
      (hlast : ∀ type', .register name type' ∉ after) : Means n calls name candidates (.ok type)
  /-- What the name means by itself. -/
  | rule {x : Except GenerationError ResolvedType} (h : ∀ type, .register name type ∉ calls)
      (hx : Rule n name candidates x) : Means n calls name candidates x

theorem answer_afterAll_of_means {calls : List Call} (h : Means n calls name candidates x) :
    ((new n).afterAll calls).answer name candidates = x := by
  cases h with
  | registered hcalls hlast =>
    rename_i before after type
    rw [hcalls, afterAll_append, afterAll_cons, answer_afterAll_of_not_mem hlast]
    show (((new n).afterAll before).register name type).answer name candidates = _
    rw [answer_register, if_pos rfl]
  | rule hnone hx =>
    rw [answer_afterAll_of_not_mem hnone]
    exact rule_iff.mp hx

theorem exists_means (n : Nat) (calls : List Call) (name : String) (candidates : List Value) :
    ∃ x, Means n calls name candidates x := by
  by_cases h : ∃ type, .register name type ∈ calls
  · obtain ⟨before, type, after, hcalls, hlast⟩ := exists_last_register h
    exact ⟨_, .registered hcalls hlast⟩
  · exact ⟨_, .rule (not_exists.mp h) (rule_answer_new n name candidates)⟩

theorem answer_afterAll_iff {calls : List Call} :
    ((new n).afterAll calls).answer name candidates = x ↔ Means n calls name candidates x := by
  constructor
  · rintro rfl
    obtain ⟨x, hx⟩ := exists_means n calls name candidates
    rw [answer_afterAll_of_means hx]
    exact hx
  · exact answer_afterAll_of_means

/-! ### Replies -/

/-- What some calls of a new resolver give back shows what was registered and nothing of what was
asked before. -/
structure CacheUnobservable (n : Nat) (calls : List Call) : Prop where
  /-- The reply to a call with candidates is the one meaning of the name after the calls before. -/
  resolveFor : ∀ k name candidates, calls[k]? = some (.resolveFor name candidates) →
    ∃ x, ((new n).replies calls)[k]? = some (some x) ∧
      ∀ y, Means n (calls.take k) name candidates y ↔ y = x
  /-- A call without candidates is the case of none. -/
  resolve : ∀ k name, calls[k]? = some (.resolve name) →
    ∃ x, ((new n).replies calls)[k]? = some (some x) ∧
      ∀ y, Means n (calls.take k) name [] y ↔ y = x
  /-- Leaving out a call that asks takes away its reply and changes no other. -/
  asking : ∀ k c, calls[k]? = some c → c.Asks →
    (new n).replies (calls.eraseIdx k) = ((new n).replies calls).eraseIdx k
  /-- In particular calls that fail have no effect. -/
  failed : ∀ k e, ((new n).replies calls)[k]? = some (some (.error e)) →
    (new n).replies (calls.eraseIdx k) = ((new n).replies calls).eraseIdx k

theorem exists_reply_means {calls : List Call} {k : Nat} {c : Call} (hk : calls[k]? = some c)
    (hc : ∀ r : Resolver, r.reply? c = some (r.answer name candidates)) :
    ∃ x, ((new n).replies calls)[k]? = some (some x) ∧
      ∀ y, Means n (calls.take k) name candidates y ↔ y = x := by
  refine ⟨((new n).afterAll (calls.take k)).answer name candidates, ?_, fun y => ?_⟩
  · rw [getElem?_replies, hk, Option.map_some, hc]
  · rw [← answer_afterAll_iff]
    exact eq_comm

/-- **The memory of a resolver cannot be observed.**  Whatever is called in whatever order, the
reply to a name is the type last registered under it, or else what the rule says of the default
size, the name and the candidates. -/
theorem cache_unobservable (n : Nat) (calls : List Call) : CacheUnobservable n calls where
  resolveFor k name candidates hk := exists_reply_means hk fun _ => rfl
  resolve k name hk := exists_reply_means hk fun _ => rfl
  asking k c hk hc := replies_eraseIdx hk hc
  failed k e hk := by
    rw [getElem?_replies, Option.map_eq_some_iff] at hk
    obtain ⟨c, hk, hreply⟩ := hk
    exact replies_eraseIdx hk (asks_of_reply?_eq_error hreply)

/-- A name that was resolved before it is registered, one that is not supported, and a string whose
size follows its candidates. -/
example :
    (new 10).replies [.resolve "UNSIGNED8", .register "UNSIGNED8" ⟨.real 32, none, .real 32, false⟩,
      .resolve "UNSIGNED8", .resolve "UNSIGNED9", .resolveFor "DOMAIN" [.domain [1, 2]],
      .resolve "DOMAIN"] =
      [some (.ok ⟨.unsigned 8, none, .unsigned 8, true⟩), none,
        some (.ok ⟨.real 32, none, .real 32, false⟩),
        some (.error (.unresolvableType "UNSIGNED9")),
        some (.ok ⟨.unsigned 8, some 2, .domain, false⟩),
        some (.ok ⟨.unsigned 8, some 0, .domain, false⟩)] := by
  decide +kernel

end Resolver
end CanopenTables
