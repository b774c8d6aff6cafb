/-
# BottledWater.Ext.NamedTypes — each named type is defined once in a schema.

`schema_for_table_row` goes over the columns with the six types that it has defined so far, and gives a
column either the definition of its type or a link to it.  Dates and timestamps share the enum of the
infinities, which `schema_for_special_times` defines or links on its own, whatever it was given for the
record before it.

A column whose name the Avro library refuses is in no schema.  If it is the first with a type, then the type is
freed with it, while `predef_schema` still has it, and the next column of that type links to freed memory.

`SchemaOf.introduces` says what a column adds to a document, `exists_schemaForLive_iff` when there is a
document, and `named_types_defined_once` what follows for all columns, in whatever order their types come.
The name of the enum has no namespace and is read in that of the table, so a table of the same name is left
out.
-/
import BottledWater.Ext.Datum
import BottledWater.Lib.AvroNames
import Mathlib.Data.List.Count

namespace BottledWater.Ext

open BottledWater.Lib BottledWater.Lib.Avro BottledWater.Protocol

/-! ## §1 — The named types -/

namespace NamedType

/-- The name that the type has in the schema of a table in the namespace `ns`. -/
def fullName (ns : String) (t : NamedType) : FullName := t.type.fullName ns

theorem fullName_snd (ns : String) (t : NamedType) : (fullName ns t).2 = t.type.name := by
  cases t <;> rfl

theorem fullName_injective (ns : String) : (fullName ns).Injective := by
  intro a b h
  have hname : a.type.name = b.type.name := by
    rw [← fullName_snd ns, h, fullName_snd]
  cases a <;> cases b <;> first | rfl | exact absurd hname (by decide)

end NamedType

/-- The types that a column needs, in the order of the branches of its field. -/
def neededTypes : TypeCase → List NamedType
  | .date => [.date, .specialTime]
  | .timetz => [.timeTz]
  | .timestamp => [.datetime, .specialTime]
  | .timestamptz => [.datetimeTz, .specialTime]
  | .interval => [.interval]
  | _ => []

theorem neededTypes_nodup (c : TypeCase) : (neededTypes c).Nodup := by
  cases c <;> decide

/-! ## §2 — What a column adds -/

def PredefSchema.defined (predef : PredefSchema) (t : NamedType) : Bool := (predef.get t).isSome

/-- An occurrence of a type, after those that are remembered. -/
def occurrenceOf (predef : PredefSchema) (ns : String) (t : NamedType) : Occurrence :=
  if predef.defined t then .links (t.fullName ns) else .defines (t.fullName ns)

/-- A piece of schema with one occurrence of each of these types, remembered afterwards. -/
structure Introduces (predef : PredefSchema) (types : List NamedType) (s : Schema × PredefSchema) : Prop where
  occurrences : ∀ ns, occurrences linkTarget ns s.1 = types.map (occurrenceOf predef ns)
  defined : ∀ t, s.2.defined t ↔ predef.defined t ∨ t ∈ types
  flat : noNestedUnion s.1

section

variable {predef : PredefSchema} {types : List NamedType} {s : Schema × PredefSchema}

theorem isUnion_linkOrDefine (t : NamedType) : (linkOrDefine predef t).1.isUnion = false := by
  unfold linkOrDefine
  cases predef.get t with
  | some s => rfl
  | none => cases t <;> rfl

theorem introduces_linkOrDefine (hpredef : predef.Named) (t : NamedType) :
    Introduces predef [t] (linkOrDefine predef t) := by
  unfold linkOrDefine
  cases hs : predef.get t with
  | some s =>
    obtain rfl := PredefSchema.named_iff.mp hpredef t s hs
    have hdefined : predef.defined t := by simp [PredefSchema.defined, hs]
    refine ⟨fun ns => ?_, fun t' => ?_, rfl⟩
    · rw [List.map_singleton, occurrenceOf, if_pos hdefined]
      cases t <;> rfl
    · rw [List.mem_singleton]
      exact ⟨.inl, fun h => h.elim id fun ht => ht ▸ hdefined⟩
  | none =>
    have hdefined : ¬ predef.defined t := by simp [PredefSchema.defined, hs]
    refine ⟨fun ns => ?_, fun t' => ?_, by cases t <;> rfl⟩
    · rw [List.map_singleton, occurrenceOf, if_neg hdefined]
      cases t <;> rfl
    · rw [List.mem_singleton, PredefSchema.defined, PredefSchema.get_define, PredefSchema.defined]
      by_cases ht : t' = t <;> simp [ht]

theorem Introduces.nullOr (h : Introduces predef types s) (hs : s.1.isUnion = false) :
    Introduces predef types (nullOr s) where
  occurrences := by
    intro ns
    simp [Ext.nullOr, Avro.occurrences, occurrencesBranches, h.occurrences]
  defined := h.defined
  flat := by
    have hnull : Schema.null.isUnion = false := rfl
    simp [Ext.nullOr, noNestedUnion, noNestedUnionBranches, hnull, hs, h.flat]

/-- The record before the infinities does not count for them. -/
theorem defined_specialTime_linkOrDefine (hpredef : predef.Named) {t : NamedType} (ht : t ≠ .specialTime) :
    (linkOrDefine predef t).2.defined .specialTime = predef.defined .specialTime := by
  rw [Bool.eq_iff_iff, (introduces_linkOrDefine hpredef t).defined, List.mem_singleton]
  simp [ht.symm]

/-- A record and then the infinities. -/
theorem introduces_specialTimes (hpredef : predef.Named) {t : NamedType} (ht : t ≠ .specialTime) :
    Introduces predef [t, .specialTime]
      (schemaForSpecialTimes (linkOrDefine predef t).2 (linkOrDefine predef t).1) := by
  have hrecord := introduces_linkOrDefine hpredef t
  have henum := introduces_linkOrDefine (named_linkOrDefine hpredef t) .specialTime
  rw [schemaForSpecialTimes_eq]
  refine ⟨fun ns => ?_, fun t' => ?_, ?_⟩
  · have hrecordOcc := hrecord.occurrences ns
    have henumOcc := henum.occurrences ns
    simp only [List.map_singleton, occurrenceOf, defined_specialTime_linkOrDefine hpredef ht] at hrecordOcc henumOcc
    simp [Avro.occurrences, occurrencesBranches, hrecordOcc, henumOcc, occurrenceOf]
  · rw [henum.defined, hrecord.defined, or_assoc]
    simp
  · have hnull : Schema.null.isUnion = false := rfl
    simp [noNestedUnion, noNestedUnionBranches, hnull, isUnion_linkOrDefine, hrecord.flat, henum.flat]

theorem introduces_primitive {type : Schema} (hs : type.isPrimitive) :
    Introduces predef [] (nullOr (type, predef)) := by
  refine Introduces.nullOr ⟨fun ns => ?_, fun t => by simp, ?_⟩ ?_
  all_goals cases type <;> first | rfl | cases hs

theorem neededTypes_of_primitive {c : TypeCase} {type : Schema} (hs : type.isPrimitive)
    (htypes : branchTypes c = [.null, type]) : neededTypes c = [] := by
  cases c <;> first | rfl | (cases htypes <;> cases hs)

/-- **What a column adds to the document**: each type that it needs, in order. -/
theorem SchemaOf.introduces {c : TypeCase} (h : SchemaOf predef c s) (hpredef : predef.Named) :
    Introduces predef (neededTypes c) s := by
  cases h with
  | primitive hs htypes =>
    rw [neededTypes_of_primitive hs htypes]
    exact introduces_primitive hs
  | date =>
    rw [schemaForDate_eq]
    exact introduces_specialTimes hpredef nofun
  | timestamp =>
    rw [schemaForTimestamp_eq]
    exact introduces_specialTimes hpredef nofun
  | timestamptz =>
    rw [schemaForTimestamp_eq]
    exact introduces_specialTimes hpredef nofun
  | timetz =>
    rw [schemaForTimeTz_eq]
    exact (introduces_linkOrDefine hpredef .timeTz).nullOr (isUnion_linkOrDefine .timeTz)
  | interval =>
    rw [schemaForInterval_eq]
    exact (introduces_linkOrDefine hpredef .interval).nullOr (isUnion_linkOrDefine .interval)

end

/-! ## §3 — Links and definitions -/

/-- The union of a column links to those of its types that are remembered, and defines the others. -/
structure Splits (predef : PredefSchema) (types : List NamedType) (s : Schema) : Prop where
  linked : linkedTypes s = (types.filter fun t => predef.defined t).map (·.type.name)
  defined : definedTypes s = (types.filter fun t => !predef.defined t).map (·.type.name)

section

variable {predef : PredefSchema}

theorem linkedType_linkOrDefine (hpredef : predef.Named) (t : NamedType) :
    linkedType (linkOrDefine predef t).1 = if predef.defined t then some t.type.name else none := by
  unfold linkOrDefine PredefSchema.defined
  cases hs : predef.get t with
  | some s =>
    obtain rfl := PredefSchema.named_iff.mp hpredef t s hs
    rfl
  | none => cases t <;> rfl

theorem definedType_linkOrDefine (t : NamedType) :
    definedType (linkOrDefine predef t).1 = if predef.defined t then none else some t.type.name := by
  unfold linkOrDefine PredefSchema.defined
  cases predef.get t with
  | some s => rfl
  | none => cases t <;> rfl

theorem splits_nullOr (hpredef : predef.Named) (t : NamedType) :
    Splits predef [t] (nullOr (linkOrDefine predef t)).1 := by
  have hnull : linkedType .null = none ∧ definedType .null = none := ⟨rfl, rfl⟩
  constructor <;> cases hdefined : predef.defined t <;>
    simp [nullOr, linkedTypes, definedTypes, hnull, linkedType_linkOrDefine hpredef, definedType_linkOrDefine,
      hdefined]

theorem splits_specialTimes (hpredef : predef.Named) {t : NamedType} (ht : t ≠ .specialTime) :
    Splits predef [t, .specialTime]
      (schemaForSpecialTimes (linkOrDefine predef t).2 (linkOrDefine predef t).1).1 := by
  have hnull : linkedType .null = none ∧ definedType .null = none := ⟨rfl, rfl⟩
  rw [schemaForSpecialTimes_eq]
  constructor <;> cases hdefined : predef.defined t <;> cases henum : predef.defined .specialTime <;>
    simp [linkedTypes, definedTypes, hnull, linkedType_linkOrDefine hpredef, definedType_linkOrDefine,
      linkedType_linkOrDefine (named_linkOrDefine hpredef t), defined_specialTime_linkOrDefine hpredef ht,
      hdefined, henum]

theorem splits_primitive {type : Schema} (hs : type.isPrimitive) :
    Splits predef [] (nullOr (type, predef)).1 := by
  constructor <;> cases type <;> first | rfl | cases hs

theorem SchemaOf.splits {c : TypeCase} {s : Schema × PredefSchema} (h : SchemaOf predef c s)
    (hpredef : predef.Named) : Splits predef (neededTypes c) s.1 := by
  cases h with
  | primitive hs htypes =>
    rw [neededTypes_of_primitive hs htypes]
    exact splits_primitive hs
  | date =>
    rw [schemaForDate_eq]
    exact splits_specialTimes hpredef nofun
  | timestamp =>
    rw [schemaForTimestamp_eq]
    exact splits_specialTimes hpredef nofun
  | timestamptz =>
    rw [schemaForTimestamp_eq]
    exact splits_specialTimes hpredef nofun
  | timetz =>
    rw [schemaForTimeTz_eq]
    exact splits_nullOr hpredef .timeTz
  | interval =>
    rw [schemaForInterval_eq]
    exact splits_nullOr hpredef .interval

end

/-! ## §4 — The loop over the columns -/

/-- The column needs the type. -/
def needs (t : NamedType) (column : String × Oid) : Bool := t ∈ neededTypes (typeCase column.2)

theorem NamedType.name_injective : Function.Injective fun t : NamedType => t.type.name := by
  intro a b h
  cases a <;> cases b <;> first | rfl | exact absurd h (by decide)

section

variable {predef : PredefSchema} {freed : List String} {hasRecord : Bool} {column : String × Oid}
  {live : List (String × Oid)} {fields : List (String × Schema)} {ns : String}

theorem introduces_schemaForOid (hpredef : predef.Named) (typid : Oid) :
    Introduces predef (neededTypes (typeCase typid)) (schemaForOid predef typid) :=
  (schemaOf_schemaForOid predef typid).introduces hpredef

theorem defined_schemaForOid (hpredef : predef.Named) (t : NamedType) :
    (schemaForOid predef column.2).2.defined t ↔ predef.defined t ∨ needs t column := by
  rw [(introduces_schemaForOid hpredef column.2).defined, needs, decide_eq_true_eq]

/-- No link to a type that was freed. -/
theorem forall_linked_iff (hpredef : predef.Named) :
    (∀ name ∈ linkedTypes (schemaForOid predef column.2).1, name ∉ freed) ↔
      ∀ t : NamedType, needs t column → predef.defined t → t.type.name ∉ freed := by
  rw [((schemaOf_schemaForOid predef column.2).splits hpredef).linked]
  simp only [List.forall_mem_map, List.mem_filter, needs, decide_eq_true_eq, and_imp]

/-- What is freed with the schema of a column. -/
theorem mem_freed_iff (hpredef : predef.Named) (t : NamedType) :
    t.type.name ∈ definedTypes (schemaForOid predef column.2).1 ++ freed ↔
      (needs t column ∧ ¬ predef.defined t) ∨ t.type.name ∈ freed := by
  rw [List.mem_append, ((schemaOf_schemaForOid predef column.2).splits hpredef).defined,
    List.mem_map_of_injective NamedType.name_injective]
  simp [needs]

/-! What is freed stays remembered, whether the field of the column is taken or not. -/

section

variable (hpredef : predef.Named) (hfreed : ∀ t : NamedType, t.type.name ∈ freed → predef.defined t)

include hpredef hfreed

theorem defined_of_freed_taken (t : NamedType) (h : t.type.name ∈ freed) :
    (schemaForOid predef column.2).2.defined t :=
  (defined_schemaForOid hpredef t).mpr (.inl (hfreed t h))

theorem defined_of_freed_refused (t : NamedType)
    (h : t.type.name ∈ definedTypes (schemaForOid predef column.2).1 ++ freed) :
    (schemaForOid predef column.2).2.defined t := by
  rw [defined_schemaForOid hpredef]
  rcases (mem_freed_iff hpredef t).mp h with ⟨hneeds, -⟩ | hmem
  · exact .inr hneeds
  · exact .inl (hfreed t hmem)

end

/-- Of the columns that need a type, the first is taken or is the only one. -/
def FirstTaken (hasRecord : Bool) (columns : List (String × Oid)) : Prop :=
  ∀ first rest, columns = first :: rest → taken hasRecord first ∨ rest = []

/-- The rest of the loop goes well for a type: if it was freed, no column needs it, and if it is not yet
defined, the first column that needs it is taken or is the only one. -/
def Passes (hasRecord : Bool) (predef : PredefSchema) (freed : List String) (live : List (String × Oid))
    (t : NamedType) : Prop :=
  (t.type.name ∈ freed → live.filter (needs t) = []) ∧
    (¬ predef.defined t → FirstTaken hasRecord (live.filter (needs t)))

theorem firstTaken_cons : FirstTaken hasRecord (column :: live) ↔ taken hasRecord column ∨ live = [] :=
  ⟨fun h => h column live rfl, fun h first rest heq => by
    obtain ⟨rfl, rfl⟩ := List.cons.inj heq
    exact h⟩

/-- One round of the loop, for one type. -/
theorem passes_cons (hpredef : predef.Named) (hfreed : ∀ t : NamedType, t.type.name ∈ freed → predef.defined t)
    (t : NamedType) :
    Passes hasRecord predef freed (column :: live) t ↔
      (needs t column → predef.defined t → t.type.name ∉ freed) ∧
        Passes hasRecord (schemaForOid predef column.2).2
          (if taken hasRecord column then freed
            else definedTypes (schemaForOid predef column.2).1 ++ freed) live t := by
  have hdefined : (schemaForOid predef column.2).2.defined t ↔ predef.defined t ∨ needs t column :=
    defined_schemaForOid hpredef t
  have hmem : t.type.name ∈ definedTypes (schemaForOid predef column.2).1 ++ freed ↔
      (needs t column ∧ ¬ predef.defined t) ∨ t.type.name ∈ freed := mem_freed_iff hpredef t
  have hfreed := hfreed t
  unfold Passes
  -- a type that the column needs is linked if it is defined, and otherwise defined by it
  by_cases hneeds : needs t column
  · rw [List.filter_cons_of_pos hneeds, firstTaken_cons]
    by_cases htaken : taken hasRecord column
    · rw [if_pos htaken]
      grind
    · rw [if_neg htaken, hmem]
      grind
  · rw [List.filter_cons_of_neg hneeds]
    split
    · simp only [hdefined, hneeds, or_false, false_imp_iff, true_and, Bool.false_eq_true]
    · simp only [hdefined, hmem, hneeds, or_false, false_or, false_and, false_imp_iff, true_and,
        Bool.false_eq_true]

/-- **When the loop comes to its end**: if it does so for each type. -/
theorem exists_schemaForLive_iff :
    ∀ {predef : PredefSchema} {freed : List String}, predef.Named →
      (∀ t : NamedType, t.type.name ∈ freed → predef.defined t) →
      ((∃ fields, schemaForLive hasRecord predef freed live = .ok fields) ↔
        ∀ t, Passes hasRecord predef freed live t) := by
  induction live with
  | nil =>
    intro predef freed _ _
    refine iff_of_true ⟨[], rfl⟩ fun t => ⟨fun _ => rfl, fun _ first rest h => ?_⟩
    cases h
  | cons column live ih =>
    intro predef freed hpredef hfreed
    have hnamed := (declares_schemaForOid hpredef column.2).1
    simp only [schemaForLive_cons_eq_ok, forall_linked_iff hpredef, passes_cons hpredef hfreed, forall_and,
      exists_and_left]
    refine and_congr_right fun _ => ?_
    by_cases htaken : taken hasRecord column
    · simp only [if_pos htaken]
      rw [← ih hnamed (defined_of_freed_taken hpredef hfreed)]
      exact ⟨fun ⟨_, rest, h, _⟩ => ⟨rest, h⟩, fun ⟨rest, h⟩ => ⟨_, rest, h, rfl⟩⟩
    · simp only [if_neg htaken]
      exact ih hnamed (defined_of_freed_refused hpredef hfreed)

end

/-! ## §5 — The document -/

section

variable {ns : String} {live : List (String × Oid)}

/-- **The schema of a column is read**, if it links to nothing that was freed. -/
theorem exists_readNames_column {predef : PredefSchema} {freed : List String} {known : List FullName}
    {column : String × Oid} (hpredef : predef.Named)
    (hfreed : ∀ t : NamedType, t.type.name ∈ freed → predef.defined t)
    (hlinked : ∀ t : NamedType, needs t column → predef.defined t → t.type.name ∉ freed)
    (hknown : ∀ t : NamedType, t.fullName ns ∈ known ↔ predef.defined t ∧ t.type.name ∉ freed) :
    ∃ after, readNames known (occurrences linkTarget ns (schemaForOid predef column.2).1) = some after ∧
      ∀ t : NamedType, t.fullName ns ∈ after ↔
        (schemaForOid predef column.2).2.defined t ∧ t.type.name ∉ freed := by
  -- of the types of this column those are known that are remembered
  have halive : ∀ t ∈ neededTypes (typeCase column.2),
      occurrenceOf predef ns t = if decide (t.fullName ns ∈ known) then .links (t.fullName ns)
        else .defines (t.fullName ns) := by
    intro t ht
    have hiff : t.fullName ns ∈ known ↔ predef.defined t := by
      rw [hknown]
      exact ⟨And.left, fun hd => ⟨hd, hlinked t (decide_eq_true ht) hd⟩⟩
    simp only [occurrenceOf, hiff, Bool.decide_eq_true]
  have hdecides (t : NamedType) : t.fullName ns ∈ known ↔ decide (t.fullName ns ∈ known) = true :=
    decide_eq_true_iff.symm
  obtain ⟨after, hread, hafter⟩ := exists_readNames (NamedType.fullName_injective ns)
    (neededTypes_nodup (typeCase column.2)) hdecides
  refine ⟨after, ?_, fun t => ?_⟩
  · rw [(introduces_schemaForOid hpredef column.2).occurrences, List.map_congr_left halive]
    exact hread
  · rw [hafter, decide_eq_true_eq, hknown, defined_schemaForOid hpredef]
    have hneeds : needs t column ↔ t ∈ neededTypes (typeCase column.2) := decide_eq_true_iff
    have := hlinked t
    have := hfreed t
    tauto

/-- **The fields are read**, if what is known of the named types is what is remembered and not freed. -/
theorem exists_readNames_schemaForLive :
    ∀ {predef : PredefSchema} {freed : List String} {fields : List (String × Schema)} {known : List FullName},
      predef.Named → (∀ t : NamedType, t.type.name ∈ freed → predef.defined t) →
      (∀ t : NamedType, t.fullName ns ∈ known ↔ predef.defined t ∧ t.type.name ∉ freed) →
      schemaForLive true predef freed live = .ok fields →
      ∃ known', readNames known (occurrencesFields linkTarget ns fields) = some known' := by
  induction live with
  | nil =>
    intro predef freed fields known _ _ _ h
    cases h
    exact ⟨_, rfl⟩
  | cons column live ih =>
    intro predef freed fields known hpredef hfreed hknown h
    have hnamed := (declares_schemaForOid hpredef column.2).1
    obtain ⟨hlinked, hrest⟩ := schemaForLive_cons_eq_ok.mp h
    rw [forall_linked_iff hpredef] at hlinked
    split at hrest
    · obtain ⟨rest, hrest, rfl⟩ := hrest
      obtain ⟨after, hread, hafter⟩ := exists_readNames_column hpredef hfreed hlinked hknown
      obtain ⟨known', hreadRest⟩ := ih hnamed (defined_of_freed_taken hpredef hfreed) hafter hrest
      refine ⟨known', ?_⟩
      rw [occurrencesFields, occurrencesField, readNames_append]
      exact (congrArg (Option.bind · _) hread).trans hreadRest
    · refine ih hnamed (defined_of_freed_refused hpredef hfreed) (fun t => ?_) hrest
      rw [hknown, defined_schemaForOid hpredef, mem_freed_iff hpredef]
      have := hfreed t
      tauto

/-- A type occurs once for each column that is taken and needs it. -/
theorem count_schemaForLive (t : NamedType) :
    ∀ {predef : PredefSchema} {freed : List String} {fields : List (String × Schema)}, predef.Named →
      schemaForLive true predef freed live = .ok fields →
      ((occurrencesFields linkTarget ns fields).map (·.fullName)).count (t.fullName ns) =
        live.countP fun column => isAvroId column.1 && needs t column := by
  induction live with
  | nil =>
    intro predef freed fields _ h
    cases h
    rfl
  | cons column live ih =>
    intro predef freed fields hpredef h
    have hnamed := (declares_schemaForOid hpredef column.2).1
    have hcolumn := introduces_schemaForOid hpredef column.2
    obtain ⟨-, hrest⟩ := schemaForLive_cons_eq_ok.mp h
    split at hrest
    · rename_i htaken
      obtain ⟨rest, hrest, rfl⟩ := hrest
      have hnames : ((neededTypes (typeCase column.2)).map (occurrenceOf predef ns)).map (·.fullName) =
          (neededTypes (typeCase column.2)).map (·.fullName ns) := by
        rw [List.map_map]
        apply List.map_congr_left
        intro t _
        simp only [Function.comp, occurrenceOf]
        split <;> rfl
      rw [occurrencesFields, occurrencesField, hcolumn.occurrences, List.map_append,
        List.count_append, hnames, List.count_map_of_injective _ _ (NamedType.fullName_injective ns),
        (neededTypes_nodup _).count, ih hnamed hrest, List.countP_cons]
      simp [Nat.add_comm, needs, show isAvroId column.1 from htaken]
    · rename_i htaken
      rw [ih hnamed hrest, List.countP_cons_of_neg]
      simp [show isAvroId column.1 = false from by simpa [taken] using htaken]

theorem noNestedUnion_schemaForLive :
    ∀ {predef : PredefSchema} {freed : List String} {fields : List (String × Schema)}, predef.Named →
      schemaForLive true predef freed live = .ok fields → noNestedUnionFields fields := by
  induction live with
  | nil =>
    intro predef freed fields _ h
    cases h
    rfl
  | cons column live ih =>
    intro predef freed fields hpredef h
    have hnamed := (declares_schemaForOid hpredef column.2).1
    obtain ⟨-, hrest⟩ := schemaForLive_cons_eq_ok.mp h
    split at hrest
    · obtain ⟨rest, hrest, rfl⟩ := hrest
      rw [noNestedUnionFields, noNestedUnionField, Bool.and_eq_true]
      exact ⟨(introduces_schemaForOid hpredef column.2).flat, ih hnamed hrest⟩
    · exact ih hnamed hrest

/-- No table is in the namespace of the named types. -/
theorem generatedSchemaNamespace_ne (name : String) :
    generatedSchemaNamespace ++ "." ++ name ≠ predefinedSchemaNamespace := by
  intro h
  have htake := congrArg (fun text => text.toList.take 28) h
  rw [String.append_assoc] at htake
  simp only [String.toList_append] at htake
  rw [List.take_append_of_le_length (by decide)] at htake
  exact absurd htake (by decide)

/-- The name of the table is none of the six. -/
theorem NamedType.fullName_ne {name relname : String} (hname : relname ≠ "SpecialTime") (t : NamedType) :
    t.fullName (generatedSchemaNamespace ++ "." ++ name) ≠ (generatedSchemaNamespace ++ "." ++ name, relname) := by
  intro h
  have hns := congrArg Prod.fst h
  cases t with
  | specialTime => exact hname (congrArg Prod.snd h).symm
  | _ => exact generatedSchemaNamespace_ne name hns.symm

end

/-- Of the columns that need a type, the first is in the schema or is the only one. -/
def Relation.KeepsTypes (rel : Relation) : Prop :=
  ∀ t : NamedType, FirstTaken (isAvroId rel.relname) (rel.tupdesc.live.filter (needs t))

/-- **When `schema_for_table_row` returns**: if no type is linked that was freed. -/
theorem exists_schemaForTableRow_iff (namespaces : Namespaces) (rel : Relation) :
    (∃ schema, schemaForTableRow namespaces rel = .ok schema) ↔ rel.KeepsTypes := by
  have hloop : (∃ fields, schemaForLive (isAvroId rel.relname) .none [] rel.tupdesc.live = .ok fields) ↔
      ∀ t, Passes (isAvroId rel.relname) .none [] rel.tupdesc.live t :=
    exists_schemaForLive_iff PredefSchema.none_named fun _ h => absurd h List.not_mem_nil
  have hpasses : (∀ t, Passes (isAvroId rel.relname) .none [] rel.tupdesc.live t) ↔ rel.KeepsTypes :=
    forall_congr' fun t => ⟨fun h => h.2 (by cases t <;> decide),
      fun h => ⟨fun hmem => absurd hmem List.not_mem_nil, fun _ => h⟩⟩
  rw [← hpasses, ← hloop]
  simp only [schemaForTableRow_eq_ok]
  exact ⟨fun ⟨_, fields, h, _⟩ => ⟨fields, h⟩, fun ⟨fields, h⟩ => ⟨_, fields, h, rfl⟩⟩

/-- **A schema in which each named type is defined once**: every type that a column needs is defined, and
its occurrences are the definition and then a link for each further column in the schema; no union directly
contains a union; and a reader accepts the document. -/
structure DefinesTypesOnce (ns : String) (live : List (String × Oid)) (schema : Schema) : Prop where
  needed : ∀ t : NamedType, (∃ column ∈ live, needs t column) →
    .defines (t.fullName ns) ∈ occurrences linkTarget "" schema
  once : ∀ t : NamedType, (occurrences linkTarget "" schema).filter (·.fullName = t.fullName ns) =
    definedOnce (t.fullName ns) (live.countP fun column => isAvroId column.1 && needs t column)
  flat : noNestedUnion schema
  read : (readNames [] (occurrences linkTarget "" schema)).isSome

section

variable {rel : Relation} {namespaces : Namespaces} {schema : Schema}

/-- A schema is read, whatever columns it lacks, and has the types of the others once. -/
theorem occurrences_schemaForTableRow (hname : rel.relname ≠ "SpecialTime")
    (h : schemaForTableRow namespaces rel = .ok (some schema)) :
    let ns := generatedSchemaNamespace ++ "." ++ namespaces rel.relnamespace
    (∀ t : NamedType, (occurrences linkTarget "" schema).filter (·.fullName = t.fullName ns) =
        definedOnce (t.fullName ns) (rel.tupdesc.live.countP fun column => isAvroId column.1 && needs t column)) ∧
      noNestedUnion schema ∧ (readNames [] (occurrences linkTarget "" schema)).isSome := by
  intro ns
  have hid : isAvroId rel.relname := (isSome_schemaForTableRow h).symm
  obtain ⟨fields, hfields, hrecord⟩ := schemaForTableRow_eq_ok.mp h
  rw [hid] at hfields
  obtain rfl : .record rel.relname ns fields = schema := by simpa [avroSchemaRecord, hid] using hrecord
  have hne : ∀ t : NamedType, t.fullName ns ≠ (ns, rel.relname) := fun t => t.fullName_ne hname
  have hoccs : occurrences linkTarget "" (.record rel.relname ns fields) =
      .defines (ns, rel.relname) :: occurrencesFields linkTarget ns fields := by
    rw [occurrences]
  -- after the name of the table none of the types is known, as none is remembered
  have hnone : ∀ t : NamedType, t.fullName ns ∈ [(ns, rel.relname)] ↔
      PredefSchema.none.defined t ∧ t.type.name ∉ ([] : List String) := by
    intro t
    rw [List.mem_singleton]
    exact ⟨fun h => absurd h (hne t), fun h => by cases t <;> cases h.1⟩
  obtain ⟨known, hread⟩ := exists_readNames_schemaForLive PredefSchema.none_named
    (fun _ h => absurd h List.not_mem_nil) hnone hfields
  have haccept : readNames [] (occurrences linkTarget "" (.record rel.relname ns fields)) = some known := by
    rw [hoccs, readNames_cons]
    exact hread
  refine ⟨fun t => ?_, ?_, ?_⟩
  · rw [filter_of_readNames haccept, if_neg List.not_mem_nil]
    congr 1
    rw [hoccs, List.map_cons, List.count_cons_of_ne, count_schemaForLive t PredefSchema.none_named hfields]
    exact (hne t).symm
  · rw [noNestedUnion]
    exact noNestedUnion_schemaForLive PredefSchema.none_named hfields
  · exact Option.isSome_of_eq_some haccept

/-- A type is defined if some column in the schema needs it. -/
theorem defines_mem_iff {ns : String} {live : List (String × Oid)} {t : NamedType}
    (honce : (occurrences linkTarget "" schema).filter (·.fullName = t.fullName ns) =
      definedOnce (t.fullName ns) (live.countP fun column => isAvroId column.1 && needs t column)) :
    .defines (t.fullName ns) ∈ occurrences linkTarget "" schema ↔
      ∃ column ∈ live, isAvroId column.1 ∧ needs t column := by
  have hmem : .defines (t.fullName ns) ∈ occurrences linkTarget "" schema ↔
      .defines (t.fullName ns) ∈ definedOnce (t.fullName ns)
        (live.countP fun column => isAvroId column.1 && needs t column) := by
    rw [← honce, List.mem_filter]
    exact (and_iff_left (decide_eq_true rfl)).symm
  have hcount : 0 < (live.countP fun column => isAvroId column.1 && needs t column) ↔
      ∃ column ∈ live, isAvroId column.1 ∧ needs t column := by
    simp only [List.countP_pos_iff, Bool.and_eq_true]
  rw [hmem, ← hcount]
  cases live.countP fun column => isAvroId column.1 && needs t column with
  | zero => simp [definedOnce]
  | succ n => simp [definedOnce]

end

/-- **Each named type is defined once**, exactly if the name of the relation and, for each type, the name of
the first column that needs it are Avro identifiers. -/
theorem named_types_defined_once (namespaces : Namespaces) (rel : Relation)
    (hname : rel.relname ≠ "SpecialTime") :
    (∃ schema, schemaForTableRow namespaces rel = .ok (some schema) ∧
      DefinesTypesOnce (generatedSchemaNamespace ++ "." ++ namespaces rel.relnamespace) rel.tupdesc.live schema) ↔
    isAvroId rel.relname ∧
      ∀ t : NamedType, ∀ column ∈ rel.tupdesc.live.find? (needs t), isAvroId column.1 := by
  constructor
  · rintro ⟨schema, hschema, honce⟩
    have hid : isAvroId rel.relname := (isSome_schemaForTableRow hschema).symm
    refine ⟨hid, fun t column hfirst => ?_⟩
    -- the type is defined by some column, which is the first one if that is the only one
    obtain ⟨column', hmem', hid', hneeds'⟩ := (defines_mem_iff (honce.once t)).mp
      (honce.needed t ⟨column, List.mem_of_find?_eq_some hfirst, List.find?_some hfirst⟩)
    have hkeeps := (exists_schemaForTableRow_iff namespaces rel).mp ⟨_, hschema⟩ t
    rw [← List.head?_filter] at hfirst
    obtain ⟨rest, hfilter⟩ := List.head?_eq_some_iff.mp hfirst
    rcases hkeeps column rest hfilter with htaken | rfl
    · exact (Bool.and_eq_true _ _ ▸ htaken).2
    · have hin : column' ∈ rel.tupdesc.live.filter (needs t) := List.mem_filter.mpr ⟨hmem', hneeds'⟩
      rw [hfilter, List.mem_singleton] at hin
      exact hin ▸ hid'
  · rintro ⟨hid, hfirst⟩
    have hkeeps : rel.KeepsTypes := by
      intro t first rest hfilter
      have hhead : rel.tupdesc.live.find? (needs t) = some first := by
        rw [← List.head?_filter, hfilter, List.head?_cons]
      exact .inl (Bool.and_eq_true _ _ ▸ ⟨hid, hfirst t first hhead⟩)
    obtain ⟨schema, hschema⟩ := (exists_schemaForTableRow_iff namespaces rel).mpr hkeeps
    obtain ⟨schema, rfl⟩ := Option.isSome_iff_exists.mp ((isSome_schemaForTableRow hschema).trans hid)
    obtain ⟨honce, hflat, hread⟩ := occurrences_schemaForTableRow hname hschema
    refine ⟨schema, hschema, ⟨fun t hneeded => ?_, honce, hflat, hread⟩⟩
    obtain ⟨column, hcolumn⟩ := Option.isSome_iff_exists.mp (List.find?_isSome.mpr hneeded)
    exact (defines_mem_iff (honce t)).mpr
      ⟨column, List.mem_of_find?_eq_some hcolumn, hfirst t column hcolumn, List.find?_some hcolumn⟩

/-- A table with two days, the time of one of them and a note. -/
def meetings : Relation where
  relid := 16440
  relname := "meetings"
  relnamespace := 2200
  tupdesc :=
    { attrs := [⟨"day", DATEOID, false⟩, ⟨"since", TIMESTAMPOID, false⟩, ⟨"note", TEXTOID, false⟩,
        ⟨"until", DATEOID, false⟩]
      details := [] }

theorem named_types_defined_once_meetings :
    ∃ schema, schemaForTableRow (fun _ => "public") meetings = .ok (some schema) ∧
      (occurrences linkTarget "" schema).filter
          (·.fullName = NamedType.date.fullName "com.martinkl.bottledwater.dbschema.public") =
        [.defines (predefinedSchemaNamespace, "Date"), .links (predefinedSchemaNamespace, "Date")] ∧
      (readNames [] (occurrences linkTarget "" schema)).isSome := by
  have hids : isAvroId meetings.relname ∧
      ∀ t : NamedType, ∀ column ∈ meetings.tupdesc.live.find? (needs t), isAvroId column.1 := by
    refine ⟨by decide, fun t column hcolumn => ?_⟩
    have hall : ∀ column ∈ meetings.tupdesc.live, isAvroId column.1 := by decide
    exact hall column (List.mem_of_find?_eq_some hcolumn)
  obtain ⟨schema, hschema, honce⟩ :=
    (named_types_defined_once (fun _ => "public") meetings (by decide)).mpr hids
  exact ⟨schema, hschema, honce.once .date, honce.read⟩

-- a table with the name of the enum: its first date would define the name again
example : readNames [] (occurrences linkTarget ""
    ({ meetings with relname := "SpecialTime" }.schema fun _ => "public")) = none := by
  decide +kernel

/-- A table with a blank in the name of its first day. -/
def stays : Relation where
  relid := 16446
  relname := "stays"
  relnamespace := 2200
  tupdesc := ⟨[⟨"start date", DATEOID, false⟩, ⟨"end_date", DATEOID, false⟩], []⟩

/-- The second day links to the type that was freed with the first. -/
theorem freed_type_linked_stays :
    schemaForTableRow (fun _ => "public") stays = .error .undefined ∧ isAvroId stays.relname ∧
      stays.tupdesc.live.find? (needs .date) = some ("start date", DATEOID) ∧ ¬ isAvroId "start date" :=
  ⟨rfl, by decide, by decide, by decide⟩

end BottledWater.Ext
