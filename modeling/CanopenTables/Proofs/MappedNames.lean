import CanopenTables.Proofs.TableRows
import CanopenTables.Proofs.TargetNames

/-!
# Names of mapped variables

A variable at file scope takes its name from the dictionary: from the name of subindex 0 for a
scalar, from the name of the entry for a record, and from both the entry and the subindex for a
member of an array.  The names are free text, and what is no word character is lost on the way.

* A name is a **C identifier** exactly when something is left of it, which is always so for the
  members of arrays.
* Two variables **share their name** exactly when their parts have become the same, or when the
  boundary between the parts has moved: what one entry has in its own name stands in front of a
  subindex name of the other (`NameParts.name_eq_name_iff`).

Main statement: `mapped_names_apart`.
-/

namespace CanopenTables

/-! ### Names of one or two parts -/

/-- What a name is put together from: a base, and for a member the words that stand behind it. -/
structure NameParts where
  base : String
  member : Option String
  deriving DecidableEq, Repr

namespace NameParts

def tail (p : NameParts) : String :=
  match p.member with
  | none => ""
  | some words => "_" ++ words

def name (p : NameParts) : String := p.base ++ p.tail

/-- The boundary between the parts has moved: the base of the second name goes on with words that in
the first name belong to the member. -/
def Shifts (p q : NameParts) : Prop :=
  ∃ words, q.base = p.base ++ "_" ++ words ∧ p.member = some (words ++ q.tail)

variable {p q : NameParts}

theorem Shifts.name_eq_name (h : p.Shifts q) : p.name = q.name := by
  obtain ⟨words, hbase, hmember⟩ := h
  unfold name
  rw [hbase]
  simp only [tail, hmember, String.append_assoc]

theorem tail_eq_tail_iff : p.tail = q.tail ↔ p.member = q.member := by
  have hne (words : String) : "_" ++ words ≠ "" := by
    intro h
    exact absurd (String.append_eq_empty_iff.mp h).1 (by decide)
  unfold tail
  cases p.member with
  | none =>
    cases q.member with
    | none => simp
    | some words => simp [(hne words).symm]
  | some words =>
    cases q.member with
    | none => simp [hne words]
    | some words' => simp [String.append_right_inj]

theorem beginsWithDigit_tail : Text.beginsWithDigit p.tail = false := by
  unfold tail
  split
  · rfl
  · rw [Text.beginsWithDigit_append]
    rfl

theorem exists_of_tail_eq_append {t u : String} (h : p.tail = t ++ u) (ht : t ≠ "") :
    ∃ words, t = "_" ++ words ∧ p.member = some (words ++ u) := by
  unfold tail at h
  cases hmember : p.member with
  | none =>
    rw [hmember] at h
    exact absurd (String.append_eq_empty_iff.mp h.symm).1 ht
  | some words =>
    rw [hmember] at h
    have hlists : '_' :: words.toList = t.toList ++ u.toList := by
      rw [← String.toList_append, ← h, String.toList_append]
      rfl
    rcases List.cons_eq_append_iff.mp hlists with ⟨hnil, -⟩ | ⟨rest, hcons, hwords⟩
    · exact absurd (String.toList_eq_nil_iff.mp hnil) ht
    · refine ⟨String.ofList rest, ?_, ?_⟩
      · rw [← String.toList_inj, hcons]
        simp [String.toList_append]
      · rw [Option.some_inj, ← String.toList_inj, hwords]
        simp [String.toList_append]

/-- When one base goes on where the other ends, the parts are the same or the boundary has moved. -/
theorem eq_or_shifts {t : String} (hbase : q.base = p.base ++ t) (htail : p.tail = t ++ q.tail) :
    p = q ∨ p.Shifts q := by
  by_cases ht : t = ""
  · left
    subst ht
    rw [String.append_empty] at hbase
    rw [String.empty_append, tail_eq_tail_iff] at htail
    cases p
    cases q
    cases hbase
    cases htail
    rfl
  · right
    obtain ⟨words, rfl, hmember⟩ := exists_of_tail_eq_append htail ht
    exact ⟨words, by rw [hbase, String.append_assoc], hmember⟩

/-- Two names are the same exactly when their parts are, or when the boundary has moved. -/
theorem name_eq_name_iff : p.name = q.name ↔ p = q ∨ p.Shifts q ∨ q.Shifts p := by
  constructor
  · intro h
    have hlists := congrArg String.toList h
    unfold name at hlists
    rw [String.toList_append, String.toList_append] at hlists
    -- the longer base goes on with the beginning of the other tail
    have hshift {p q : NameParts} {t : List Char} (hbase : q.base.toList = p.base.toList ++ t)
        (htail : p.tail.toList = t ++ q.tail.toList) : p = q ∨ p.Shifts q := by
      apply eq_or_shifts (t := String.ofList t)
      · rw [← String.toList_inj, String.toList_append, String.toList_ofList, hbase]
      · rw [← String.toList_inj, String.toList_append, String.toList_ofList, htail]
    rcases List.append_eq_append_iff.mp hlists with ⟨t, hbase, htail⟩ | ⟨t, hbase, htail⟩
    · rcases hshift hbase htail with heq | hpq
      · exact Or.inl heq
      · exact Or.inr (Or.inl hpq)
    · rcases hshift hbase htail with heq | hqp
      · exact Or.inl heq.symm
      · exact Or.inr (Or.inr hqp)
  · rintro (rfl | h | h)
    · rfl
    · exact h.name_eq_name
    · exact h.name_eq_name.symm

/-- A record of one name and a member of an array, with the boundary at different places. -/
example : NameParts.name ⟨"Motor_Speed", none⟩ = NameParts.name ⟨"Motor", some "Speed"⟩ := by
  decide

end NameParts

/-! ### The parts of the names in an entry -/

namespace Entry

def subName (e : Entry) (k : SubIndex) : String := ((e.sub? k).map SubEntry.name).getD ""

/-- The name in the dictionary that the variables of a mapped entry are called after. -/
def sourceName (e : Entry) : String :=
  match e.shape with
  | .scalar => e.subName 0
  | .record => e.name
  | .array => e.name

/-- The parts of the name of a mapped variable. -/
def nameParts (e : Entry) (k : SubIndex) : NameParts :=
  ⟨Text.identifier e.sourceName,
    if e.shape = .array then some (Text.joinedWords (e.subName k)) else none⟩

variable (e : Entry) (k : SubIndex)

theorem name_nameParts_of_array (h : e.shape = .array) :
    (e.nameParts k).name =
      Text.identifier e.name ++ "_" ++ Text.joinedWords (e.subName k) := by
  simp [nameParts, NameParts.name, NameParts.tail, sourceName, h, String.append_assoc]

theorem name_nameParts_of_ne_array (h : e.shape ≠ .array) :
    (e.nameParts k).name = Text.identifier e.sourceName := by
  simp [nameParts, NameParts.name, NameParts.tail, h]

theorem isWordChar_of_mem_nameParts :
    ∀ c ∈ (e.nameParts k).name.toList, Text.isWordChar c = true := by
  intro c hc
  by_cases h : e.shape = .array
  · rw [name_nameParts_of_array e k h, String.toList_append, String.toList_append] at hc
    simp only [List.mem_append] at hc
    rcases hc with (hc | hc) | hc
    · exact Text.isWordChar_of_mem_identifier e.name c hc
    · rw [List.mem_singleton.mp hc]
      decide
    · exact Text.isWordChar_of_mem_joinedWords hc
  · rw [name_nameParts_of_ne_array e k h] at hc
    exact Text.isWordChar_of_mem_identifier e.sourceName c hc

theorem beginsWithDigit_nameParts : Text.beginsWithDigit (e.nameParts k).name = false := by
  unfold NameParts.name
  rw [Text.beginsWithDigit_append]
  split
  · exact NameParts.beginsWithDigit_tail
  · simp only [nameParts, Text.beginsWithDigit_identifier]

theorem isIdentifier_nameParts_iff :
    Text.IsIdentifier (e.nameParts k).name ↔
      e.shape = .array ∨ Text.hasWordChar e.sourceName = true := by
  by_cases h : e.shape = .array
  · have hne : (e.nameParts k).name ≠ "" := by
      rw [name_nameParts_of_array e k h]
      intro hempty
      have hleft := (String.append_eq_empty_iff.mp hempty).1
      exact absurd (String.append_eq_empty_iff.mp hleft).2 (by decide)
    constructor
    · intro _
      exact Or.inl h
    · intro _
      exact ⟨hne, e.isWordChar_of_mem_nameParts k, e.beginsWithDigit_nameParts k⟩
  · rw [name_nameParts_of_ne_array e k h, Text.isIdentifier_identifier_iff]
    simp [h]

end Entry

/-- The name that a definition gives. -/
def MappedDefinition.name : MappedDefinition → String
  | scalar _ v => v.declarator.name
  | member _ _ v => v.declarator.name
  | record _ _ array => array.declarator.name

namespace Site

variable {s : Site} {r : Resolver} {c : ShapeCode}

theorem subName_entry_of_subEntry {k : SubIndex} {sub : SubEntry} (h : s.subEntry k = .ok sub) :
    s.entry.subName k = sub.name := by
  unfold Entry.subName
  rw [subEntry_eq_ok_iff.mp h]
  rfl

theorem name_of_laidOut (h : s.LaidOut r c) :
    ∀ m ∈ c.definitions, m.name = (s.entry.nameParts m.address.sub).name := by
  intro m hm
  cases h with
  | @scalar value sub type literal hobject hsub =>
    have hshape : s.entry.shape = .scalar := Entry.shape_of_single hobject
    have hsource : s.entry.sourceName = sub.name := by
      unfold Entry.sourceName
      rw [hshape]
      exact subName_entry_of_subEntry hsub
    rw [Entry.name_nameParts_of_ne_array _ _ (by rw [hshape]; decide), hsource]
    unfold scalarLayout at hm
    split at hm
    · rw [List.mem_singleton.mp hm, MappedDefinition.name]
    · cases hm
  | @record values _ sub _ type highest n literals hobject hidentical =>
    have hshape : s.entry.shape = .record := Entry.shape_of_identical hobject hidentical
    have hsource : s.entry.sourceName = s.entry.name := by
      unfold Entry.sourceName
      rw [hshape]
    rw [Entry.name_nameParts_of_ne_array _ _ (by rw [hshape]; decide), hsource]
    have hrecord : m ∈ (s.recordLayout values type n literals).definitions := hm
    unfold recordLayout at hrecord
    split at hrecord
    · rw [List.mem_singleton.mp hrecord, MappedDefinition.name]
    · cases hrecord
  | @array values _ _ _ members hobject hidentical _ _ _ hmembers =>
    have hshape : s.entry.shape = .array := Entry.shape_of_not_identical hobject hidentical
    rw [Entry.name_nameParts_of_array _ _ hshape]
    unfold sequenceLayout at hm
    rw [ShapeCode.foldl_append _ (highest_eq_none_of_members hmembers)] at hm
    have hflat : m ∈ members.flatMap (·.definitions) := by
      simpa [ShapeCode.append] using hm
    obtain ⟨member, hmember, hm⟩ := List.mem_flatMap.mp hflat
    obtain ⟨k, sub, type, literal, hsub, rfl⟩ := exists_memberLayout_of_mem hmembers hmember
    unfold memberLayout at hm
    split at hm
    · rw [List.mem_singleton.mp hm]
      show _ = _ ++ "_" ++ Text.joinedWords (s.entry.subName k)
      rw [subName_entry_of_subEntry hsub]
      rfl
    · cases hm

end Site

namespace Dictionary

variable {d : Dictionary} {headerName : String} {aliases : PointerAliases} {config : Config}
  {r : Resolver} {codes : List EntryCode}

theorem exists_entry_of_definition (h : d.entryCodes.value r = .ok codes) {m : MappedDefinition}
    (hm : m ∈ codes.flatMap (·.shape.definitions)) :
    ∃ e, d.get? m.address.index = some e ∧ Profile.isMapped m.address.index = true ∧
      m.name = (e.nameParts m.address.sub).name := by
  obtain ⟨c, hc, hm⟩ := List.mem_flatMap.mp hm
  obtain ⟨s, hs, hcode⟩ := exists_site_of_mem_codes h hc
  obtain ⟨-, -, hget⟩ := mem_sites_iff.mp hs
  have hshape := Site.laidOut_of_code hcode
  have haddress : m.address ∈ c.shape.definitions.map MappedDefinition.address :=
    List.mem_map_of_mem hm
  rw [Site.addresses_of_laidOut hshape] at haddress
  split at haddress
  · rename_i hmapped
    obtain ⟨k, -, heq⟩ := List.mem_map.mp haddress
    have hindex : m.address.index = s.index := by rw [← heq]
    rw [hindex]
    exact ⟨s.entry, hget, hmapped, Site.name_of_laidOut hshape m hm⟩
  · cases haddress

/-- **Names at file scope.**  In a generation that succeeds, the name of a mapped variable is made
of the parts that its entry gives.  It has word characters only and no digit in front; so it is a C
identifier unless it is empty, which happens only outside of arrays, to an entry called after a name
without word characters.  Two of the variables have one name exactly when their parts have become
the same or the boundary between the parts has moved.  The variables are defined line by line. -/
theorem mapped_names_apart {files : DocumentPair}
    (h : (d.generate headerName aliases config).outcome = .ok files) :
    ∃ source header,
      (d.documents headerName aliases config).outcome = .ok (source, header) ∧
      files = ⟨source.text, header.text⟩ ∧
      PrintsIn (sectionText "Declaration of mapped variables" ++
        String.join (source.definitions.map MappedDefinition.spelled) ++
        sectionText "Declaration of value range types") source.text ∧
      (∀ m ∈ source.definitions, ∃ e, d.get? m.address.index = some e ∧
        Profile.isMapped m.address.index = true ∧
        m.name = (e.nameParts m.address.sub).name ∧
        (∀ c ∈ m.name.toList, Text.isWordChar c = true) ∧
        Text.beginsWithDigit m.name = false ∧
        (Text.IsIdentifier m.name ↔
          e.shape = .array ∨ Text.hasWordChar e.sourceName = true)) ∧
      ∀ m ∈ source.definitions, ∀ m' ∈ source.definitions, ∀ e e',
        d.get? m.address.index = some e → d.get? m'.address.index = some e' →
        (m.name = m'.name ↔
          e.nameParts m.address.sub = e'.nameParts m'.address.sub ∨
          (e.nameParts m.address.sub).Shifts (e'.nameParts m'.address.sub) ∨
          (e'.nameParts m'.address.sub).Shifts (e.nameParts m.address.sub)) := by
  obtain ⟨source, header, ranges, r, codes, fallbacks, timers, hdocuments, hfiles, -, hcodes, -,
    hsource⟩ := exists_stages_of_generate h
  have hname {m : MappedDefinition} (hm : m ∈ source.definitions) :
      ∃ e, d.get? m.address.index = some e ∧ Profile.isMapped m.address.index = true ∧
        m.name = (e.nameParts m.address.sub).name := by
    rw [definitions_documentsOf hsource] at hm
    exact exists_entry_of_definition hcodes hm
  refine ⟨source, header, hdocuments, hfiles, source.printsIn_definitions, ?_, ?_⟩
  · intro m hm
    obtain ⟨e, hget, hmapped, heq⟩ := hname hm
    refine ⟨e, hget, hmapped, heq, ?_⟩
    rw [heq]
    exact ⟨e.isWordChar_of_mem_nameParts m.address.sub, e.beginsWithDigit_nameParts m.address.sub,
      e.isIdentifier_nameParts_iff m.address.sub⟩
  · intro m hm m' hm' e e' hget hget'
    obtain ⟨f, hf, -, heq⟩ := hname hm
    obtain ⟨f', hf', -, heq'⟩ := hname hm'
    obtain rfl : e = f := Option.some.inj (hget.symm.trans hf)
    obtain rfl : e' = f' := Option.some.inj (hget'.symm.trans hf')
    rw [heq, heq']
    exact NameParts.name_eq_name_iff

theorem mapped_names_apart_drive :
    ∃ source header,
      (drive.documents "Drive.h" .empty {}).outcome = .ok (source, header) ∧
      source.definitions.map MappedDefinition.name =
        ["Setpoint", "_1st_speeds", "Unit_Name", "Unit_Image"] ∧
      ∀ m ∈ source.definitions, ∃ e, drive.get? m.address.index = some e ∧
        m.name = (e.nameParts m.address.sub).name ∧
        (Text.IsIdentifier m.name ↔
          e.shape = .array ∨ Text.hasWordChar e.sourceName = true) := by
  obtain ⟨files, source, header, h, hdocuments, hdrive⟩ := exists_documents_drive
  obtain ⟨source', header', hdocuments', -, -, hparts, -⟩ := mapped_names_apart h
  cases hdocuments.symm.trans hdocuments'
  refine ⟨source, header, hdocuments, ?_, fun m hm => ?_⟩
  · rw [hdrive.definitions]
    rfl
  obtain ⟨e, hget, -, heq, -, -, hiff⟩ := hparts m hm
  exact ⟨e, hget, heq, hiff⟩

/-- Three variables: two names that differ in a separator, and a name without word characters. -/
def lookalikes : Dictionary :=
  { node := { name := "Node" }
    entries := .ofList
      [(0x2000, .ofVariable "Motor Speed" ⟨"Motor Speed", 0x0005, .readWrite, false, false⟩
          (.unsigned 1)),
        (0x2001, .ofVariable "Motor-Speed" ⟨"Motor-Speed", 0x0005, .readWrite, false, false⟩
          (.unsigned 2)),
        (0x2002, .ofVariable "***" ⟨"***", 0x0005, .readWrite, false, false⟩ (.unsigned 3))] }

/-- Two of the variables have one name, and the third has none. -/
theorem exists_documents_lookalikes :
    ∃ files source header,
      (lookalikes.generate "Node.h" .empty {}).outcome = .ok files ∧
      (lookalikes.documents "Node.h" .empty {}).outcome = .ok (source, header) ∧
      (∃ m ∈ source.definitions, m.address = ⟨0x2000, 0⟩ ∧ m.name = "Motor_Speed") ∧
      (∃ m ∈ source.definitions, m.address = ⟨0x2001, 0⟩ ∧ m.name = "Motor_Speed") ∧
      ∃ m ∈ source.definitions, m.address = ⟨0x2002, 0⟩ ∧ m.name = "" := by
  obtain ⟨files, hfiles⟩ := exists_eq_ok_of_isOk
    (by decide +kernel : (lookalikes.generate "Node.h" .empty {}).outcome.isOk = true)
  obtain ⟨source, header, -, -, -, -, -, hdocuments, -⟩ := exists_stages_of_generate hfiles
  have hnames : (lookalikes.documents "Node.h" .empty {}).outcome.toOption.map
      (fun p => p.1.definitions.map fun m => (m.address, m.name)) =
        some [(⟨0x2000, 0⟩, "Motor_Speed"), (⟨0x2001, 0⟩, "Motor_Speed"), (⟨0x2002, 0⟩, "")] := by
    decide +kernel
  rw [hdocuments] at hnames
  have hdefinition (a : Address) (name : String) (hmem : (a, name) ∈
      [(⟨0x2000, 0⟩, "Motor_Speed"), (⟨0x2001, 0⟩, "Motor_Speed"), (⟨0x2002, 0⟩, "")]) :
      ∃ m ∈ source.definitions, m.address = a ∧ m.name = name := by
    rw [← Option.some.inj hnames] at hmem
    obtain ⟨m, hm, heq⟩ := List.mem_map.mp hmem
    exact ⟨m, hm, Prod.mk.inj heq⟩
  exact ⟨files, source, header, hfiles, hdocuments, hdefinition _ _ (by simp),
    hdefinition _ _ (by simp), hdefinition _ _ (by simp)⟩

/-- Word characters alone do not tell names apart, and a name may have none. -/
theorem not_forall_names_apart :
    (¬ ∀ (d : Dictionary) (headerName : String) (aliases : PointerAliases) (config : Config)
        (files : DocumentPair) (source : SourceDocument) (header : HeaderDocument),
      (d.generate headerName aliases config).outcome = .ok files →
      (d.documents headerName aliases config).outcome = .ok (source, header) →
        ∀ m ∈ source.definitions, Text.IsIdentifier m.name) ∧
    ¬ ∀ (d : Dictionary) (headerName : String) (aliases : PointerAliases) (config : Config)
        (files : DocumentPair) (source : SourceDocument) (header : HeaderDocument),
      (d.generate headerName aliases config).outcome = .ok files →
      (d.documents headerName aliases config).outcome = .ok (source, header) →
        ∀ m ∈ source.definitions, ∀ m' ∈ source.definitions, ∀ e e',
          d.get? m.address.index = some e → d.get? m'.address.index = some e' →
          m.address.index ≠ m'.address.index → e.name ≠ e'.name →
          (∀ sub ∈ e.subEntries, ∀ sub' ∈ e'.subEntries, sub.name ≠ sub'.name) →
            m.name ≠ m'.name := by
  obtain ⟨files, source, header, hfiles, hdocuments, ⟨m, hm, haddress, hname⟩,
    ⟨m', hm', haddress', hname'⟩, n, hn, -, hempty⟩ := exists_documents_lookalikes
  constructor
  · intro hall
    exact (hall lookalikes "Node.h" .empty {} files source header hfiles hdocuments n hn).nonempty
      hempty
  · intro hall
    refine hall lookalikes "Node.h" .empty {} files source header hfiles hdocuments m hm m' hm'
      (.ofVariable "Motor Speed" ⟨"Motor Speed", 0x0005, .readWrite, false, false⟩ (.unsigned 1))
      (.ofVariable "Motor-Speed" ⟨"Motor-Speed", 0x0005, .readWrite, false, false⟩ (.unsigned 2))
      ?_ ?_ ?_ ?_ ?_ (hname.trans hname'.symm)
    · rw [haddress]
      decide +kernel
    · rw [haddress']
      decide +kernel
    · rw [haddress, haddress']
      decide
    · decide +kernel
    · decide +kernel

end Dictionary
end CanopenTables
