/-
# BottledWater.Lib.AvroNames — the names in a schema document.

A named type is defined where it first stands in a document, and later occurrences are references to it by
its full name.  A reader of documents keeps the names it has seen: defining one again is an error, so is a
reference to one that is not there yet, and so is a union that directly contains a union.

`occurrences` lists definitions and references in document order, and `readNames` is the reader.  What it
accepts has each name in the form of `definedOnce`: a definition first, references after it.
-/
import BottledWater.Lib.Avro

namespace BottledWater.Lib.Avro

/-! ## §1 — Occurrences -/

/-- A namespace and a name in it. -/
abbrev FullName := String × String

/-- The full name of a named type in a document of the namespace `ns`.  An enum has no namespace of its
own. -/
def Schema.fullName (ns : String) : Schema → FullName
  | .record name own _ => (own, name)
  | s => (ns, s.name)

inductive Occurrence
  | defines (n : FullName)
  | links (n : FullName)
  deriving DecidableEq, Repr

def Occurrence.fullName : Occurrence → FullName
  | defines n => n
  | links n => n

section

variable (target : String → Option Schema)

/-- The full name that a link is written with: that of the type it points to. -/
def linkName (ns name : String) : FullName := ((target name).map (Schema.fullName ns)).getD (ns, name)

mutual
/-- **`occurrences target ns s`** — the definitions and references of `s` in document order, where `ns` is
the namespace around it. -/
def occurrences (ns : String) : Schema → List Occurrence
  | .record name own fields => .defines (own, name) :: occurrencesFields own fields
  | .enum name _ => [.defines (ns, name)]
  | .array items => occurrences ns items
  | .union branches => occurrencesBranches ns branches
  | .link name => [.links (linkName target ns name)]
  | _ => []

def occurrencesFields (ns : String) : List (String × Schema) → List Occurrence
  | [] => []
  | f :: fs => occurrencesField ns f ++ occurrencesFields ns fs

def occurrencesField (ns : String) : String × Schema → List Occurrence
  | (_, s) => occurrences ns s

def occurrencesBranches (ns : String) : List Schema → List Occurrence
  | [] => []
  | s :: ss => occurrences ns s ++ occurrencesBranches ns ss
end

end

def Schema.isUnion : Schema → Bool
  | .union _ => true
  | _ => false

mutual
/-- No union directly contains a union. -/
def noNestedUnion : Schema → Bool
  | .record _ _ fields => noNestedUnionFields fields
  | .array items => noNestedUnion items
  | .union branches => branches.all (!·.isUnion) && noNestedUnionBranches branches
  | _ => true

def noNestedUnionFields : List (String × Schema) → Bool
  | [] => true
  | f :: fs => noNestedUnionField f && noNestedUnionFields fs

def noNestedUnionField : String × Schema → Bool
  | (_, s) => noNestedUnion s

def noNestedUnionBranches : List Schema → Bool
  | [] => true
  | s :: ss => noNestedUnion s && noNestedUnionBranches ss
end

/-! ## §2 — Reading -/

/-- One occurrence: the names known afterwards. -/
def readName (known : List FullName) : Occurrence → Option (List FullName)
  | .defines n => if n ∈ known then none else some (n :: known)
  | .links n => if n ∈ known then some known else none

/-- **`readNames known occs`** — a document with these occurrences is read, where some names are known. -/
def readNames (known : List FullName) (occs : List Occurrence) : Option (List FullName) :=
  occs.foldlM readName known

/-- As many occurrences of a name as it should have: a definition, and references to it. -/
def definedOnce (n : FullName) : Nat → List Occurrence
  | 0 => []
  | count + 1 => .defines n :: List.replicate count (.links n)

section

variable {known known' : List FullName} {occs : List Occurrence}

theorem readNames_cons {o : Occurrence} :
    readNames known (o :: occs) = (readName known o).bind (readNames · occs) := List.foldlM_cons

theorem readNames_append {occs' : List Occurrence} :
    readNames known (occs ++ occs') = (readNames known occs).bind (readNames · occs') :=
  List.foldlM_append

/-- A name that is known is only referred to, and another is known from its definition on. -/
theorem filter_of_readNames {n : FullName} :
    ∀ {known known' : List FullName}, readNames known occs = some known' →
      occs.filter (·.fullName = n) = if n ∈ known
        then List.replicate ((occs.map (·.fullName)).count n) (.links n)
        else definedOnce n ((occs.map (·.fullName)).count n) := by
  induction occs with
  | nil =>
    intro known known' _
    split <;> rfl
  | cons o occs ih =>
    intro known known' h
    rw [readNames_cons, Option.bind_eq_some_iff] at h
    obtain ⟨after, ho, hrest⟩ := h
    have ih := ih hrest
    cases o with
    | defines m =>
      obtain ⟨hnew, rfl⟩ : m ∉ known ∧ m :: known = after := by simpa [readName] using ho
      by_cases hm : m = n
      · -- from here on the name is known, so only references are left
        subst hm
        rw [if_pos List.mem_cons_self] at ih
        rw [List.filter_cons_of_pos (by simp [Occurrence.fullName]), ih, if_neg hnew, List.map_cons]
        exact congrArg (definedOnce m) List.count_cons_self.symm
      · have hiff : n ∈ m :: known ↔ n ∈ known := by simp [Ne.symm hm]
        simp only [hiff] at ih
        rw [List.filter_cons_of_neg (by simp [Occurrence.fullName, hm]), ih, List.map_cons,
          List.count_cons_of_ne (by simpa [Occurrence.fullName] using hm)]
    | links m =>
      obtain ⟨hknown, rfl⟩ : m ∈ known ∧ known = after := by simpa [readName] using ho
      by_cases hm : m = n
      · subst hm
        rw [if_pos hknown] at ih
        rw [List.filter_cons_of_pos (by simp [Occurrence.fullName]), ih, if_pos hknown, List.map_cons]
        exact congrArg (List.replicate · (Occurrence.links m)) List.count_cons_self.symm
      · rw [List.filter_cons_of_neg (by simp [Occurrence.fullName, hm]), ih, List.map_cons,
          List.count_cons_of_ne (by simpa [Occurrence.fullName] using hm)]

/-- **Names that are defined at their first occurrence are read**: of names told apart by an index, those in
`defined` are known, and the others of the list get their definition now. -/
theorem exists_readNames {ι : Type} {names : ι → FullName} (hnames : names.Injective) {types : List ι} :
    ∀ {known : List FullName} {defined : ι → Bool}, types.Nodup →
      (∀ i, names i ∈ known ↔ defined i) →
      ∃ known', readNames known
          (types.map fun i => if defined i then .links (names i) else .defines (names i)) = some known' ∧
        ∀ i, names i ∈ known' ↔ defined i ∨ i ∈ types := by
  classical
  induction types with
  | nil => exact fun _ hknown => ⟨_, rfl, by simpa using hknown⟩
  | cons type types ih =>
    intro known defined hnodup hknown
    obtain ⟨hnew, hnodup⟩ := List.nodup_cons.mp hnodup
    -- after this occurrence its name is known, and the others are as before
    obtain ⟨after, hread, hafter⟩ : ∃ after,
        readName known (if defined type then .links (names type) else .defines (names type)) = some after ∧
          ∀ i, names i ∈ after ↔ defined i || decide (i = type) := by
      cases hdefined : defined type with
      | true =>
        refine ⟨known, if_pos ((hknown type).mpr hdefined), fun i => ?_⟩
        rw [hknown, Bool.or_eq_true, decide_eq_true_eq]
        exact ⟨.inl, fun h => h.elim id fun h => h ▸ hdefined⟩
      | false =>
        refine ⟨names type :: known, if_neg (by simp [hknown, hdefined]), fun i => ?_⟩
        rw [List.mem_cons, hknown, hnames.eq_iff, Bool.or_eq_true, decide_eq_true_eq, or_comm]
    obtain ⟨known', hrest, hknown'⟩ := ih hnodup hafter
    refine ⟨known', ?_, fun i => ?_⟩
    · rw [List.map_cons, readNames_cons, hread, Option.bind_some, ← hrest]
      congr 1
      apply List.map_congr_left
      intro i hi
      have hne : i ≠ type := ne_of_mem_of_not_mem hi hnew
      simp [hne]
    · rw [hknown', Bool.or_eq_true, decide_eq_true_eq, List.mem_cons, or_assoc]

end

end BottledWater.Lib.Avro
