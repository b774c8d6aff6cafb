/-
# BottledWater.Lib.Setter — writing a value under a schema.

The setters of the generic value interface of the C library.  A value in memory is made for a schema, and
every place in it has the type that the schema declares there: a setter of another type fails, so does
choosing a branch that a union does not have, or taking a field that a record does not have.  A place
whose schema is a link behaves like a place of the type that the link points to.

A `Setter` is what a piece of code does at one place.  `Sound` says that whatever it writes is a value of
the schema of the place; the rules below compose it.
-/
import BottledWater.Lib.Avro

namespace BottledWater.Lib.Avro

/-! ## §1 — Setters -/

/-- What is written at a place, given the types that links point to and the schema of the place; `none` if
a call returns an error. -/
abbrev Setter := (String → Option Schema) → Schema → Option Value

/-- The type of a place. -/
def resolve (target : String → Option Schema) : Schema → Option Schema
  | .link name => target name
  | s => some s

theorem resolve_of_isPrimitive {target : String → Option Schema} {s : Schema} (hs : s.isPrimitive) :
    resolve target s = some s := by
  cases s <;> first | rfl | cases hs

/-- The types that take a scalar. -/
def takes : Schema → Value → Bool
  | .boolean, .boolean _ => true
  | .int, .int _ => true
  | .long, .long _ => true
  | .float, .float _ => true
  | .double, .double _ => true
  | .bytes, .bytes content => content.length < maxSize
  | .string, .string buffer => buffer.length < maxSize && buffer.getLast? == some 0
  | .enum _ symbols, .enum n => n < symbols.length && n < maxSize
  | _, _ => false

/-- What the setters of scalars have in common. -/
def setScalar (v : Value) : Setter := fun target s =>
  (resolve target s).bind fun s => if takes s v then some v else none

/-- `avro_value_set_boolean`. -/
def setBoolean (b : Bool) : Setter := setScalar (.boolean b)

/-- `avro_value_set_int`. -/
def setInt (n : Int32) : Setter := setScalar (.int n)

/-- `avro_value_set_long`. -/
def setLong (n : Int64) : Setter := setScalar (.long n)

/-- `avro_value_set_float`. -/
def setFloat (bits : UInt32) : Setter := setScalar (.float bits)

/-- `avro_value_set_double`. -/
def setDouble (bits : UInt64) : Setter := setScalar (.double bits)

/-- `avro_value_set_bytes`. -/
def setBytes (content : Bytes) : Setter := setScalar (.bytes content)

/-- The buffer of a C string: what comes before the first NUL, and the NUL. -/
def cString (text : Bytes) : Bytes := text.takeWhile (· ≠ 0) ++ [0]

/-- `avro_value_set_string`. -/
def setString (text : Bytes) : Setter := setScalar (.string (cString text))

/-- `avro_value_set_enum`. -/
def setEnum (symbol : Nat) : Setter := setScalar (.enum symbol)

/-- The value of a scalar that was not set since the last `avro_value_reset`. -/
def initial : Schema → Option Value
  | .null => some .null
  | .boolean => some (.boolean false)
  | .int => some (.int 0)
  | .long => some (.long 0)
  | .float => some (.float 0)
  | .double => some (.double 0)
  | .bytes => some (.bytes [])
  | .string => some (.string [0])
  | .enum _ (_ :: _) => some (.enum 0)
  | .array _ => some (.array [])
  | _ => none

/-- No call at all. -/
def leave : Setter := fun target s => (resolve target s).bind initial

/-- `avro_value_set_branch`, and what is then done with the branch. -/
def setBranch (branch : Nat) (w : Setter) : Setter := fun target s =>
  match resolve target s with
  | some (.union branches) => (branches[branch]?).bind fun s => (w target s).map (.union branch)
  | _ => none

/-- The fields of a record, the first ones by the given setters. -/
def writeFields (target : String → Option Schema) :
    List (String × Schema) → List Setter → Option (List Value)
  | [], [] => some []
  | [], _ :: _ => none
  | f :: fields, [] => do
    let v ← leave target f.2
    let vs ← writeFields target fields []
    pure (v :: vs)
  | f :: fields, w :: ws => do
    let v ← w target f.2
    let vs ← writeFields target fields ws
    pure (v :: vs)

/-- `avro_value_get_by_index` for 0, 1, … on a record, with a setter for each. -/
def setFields (ws : List Setter) : Setter := fun target s =>
  match resolve target s with
  | some (.record _ _ fields) => (writeFields target fields ws).map .record
  | _ => none

theorem eq_of_setScalar {target : String → Option Schema} {s : Schema} {v w : Value}
    (h : setScalar v target s = some w) : w = v := by
  obtain ⟨t, -, hw⟩ := Option.bind_eq_some_iff.mp h
  split at hw
  · exact (Option.some.inj hw).symm
  · cases hw

theorem exists_of_setBranch {target : String → Option Schema} {branch : Nat} {w : Setter} {s : Schema}
    {v : Value} (h : setBranch branch w target s = some v) :
    ∃ t u, w target t = some u ∧ v = .union branch u := by
  unfold setBranch at h
  split at h
  · obtain ⟨t, -, h⟩ := Option.bind_eq_some_iff.mp h
    obtain ⟨u, hu, rfl⟩ := Option.map_eq_some_iff.mp h
    exact ⟨t, u, hu, rfl⟩
  · cases h

theorem exists_of_writeFields {target : String → Option Schema} {vs : List Value} :
    ∀ {fields : List (String × Schema)} {us : List Value},
      writeFields target fields (vs.map setScalar) = some us → ∃ rest, us = vs ++ rest := by
  induction vs with
  | nil => exact fun {_ us} _ => ⟨us, rfl⟩
  | cons v vs ih =>
    intro fields us h
    cases fields with
    | nil => cases h
    | cons f fields =>
      obtain ⟨u, hu, h⟩ := Option.bind_eq_some_iff.mp h
      obtain ⟨us', hus, heq⟩ := Option.bind_eq_some_iff.mp h
      obtain ⟨rest, rfl⟩ := ih hus
      obtain rfl := eq_of_setScalar hu
      exact ⟨rest, (Option.some.inj heq).symm⟩

/-- The scalars that a record was set to are its first fields. -/
theorem exists_of_setFields {target : String → Option Schema} {vs : List Value} {s : Schema} {v : Value}
    (h : setFields (vs.map setScalar) target s = some v) : ∃ rest, v = .record (vs ++ rest) := by
  unfold setFields at h
  split at h
  · obtain ⟨us, hus, rfl⟩ := Option.map_eq_some_iff.mp h
    obtain ⟨rest, rfl⟩ := exists_of_writeFields hus
    exact ⟨rest, rfl⟩
  · cases h

section

variable {target : String → Option Schema} {branch branch' : Nat} {w w' : Setter} {s s' : Schema} {v : Value}

/-- Different branches are different values. -/
theorem branch_eq_of_setBranch (h : setBranch branch w target s = some v)
    (h' : setBranch branch' w' target s' = some v) : branch = branch' := by
  obtain ⟨_, _, -, rfl⟩ := exists_of_setBranch h
  obtain ⟨_, _, -, heq⟩ := exists_of_setBranch h'
  exact (Value.union.inj heq).1

/-- So are different scalars. -/
theorem eq_of_setBranch_setScalar {a b : Value} (ha : setBranch branch (setScalar a) target s = some v)
    (hb : setBranch branch' (setScalar b) target s' = some v) : a = b := by
  obtain ⟨_, u, hu, rfl⟩ := exists_of_setBranch ha
  obtain ⟨_, u', hu', heq⟩ := exists_of_setBranch hb
  cases heq
  exact (eq_of_setScalar hu).symm.trans (eq_of_setScalar hu')

/-- So are records with different fields. -/
theorem eq_of_setBranch_setFields (as bs : List Value) (hlen : as.length = bs.length)
    (ha : setBranch branch (setFields (as.map setScalar)) target s = some v)
    (hb : setBranch branch' (setFields (bs.map setScalar)) target s' = some v) : as = bs := by
  obtain ⟨_, u, hu, rfl⟩ := exists_of_setBranch ha
  obtain ⟨_, u', hu', heq⟩ := exists_of_setBranch hb
  cases heq
  obtain ⟨rest, rfl⟩ := exists_of_setFields hu
  obtain ⟨rest', hrest⟩ := exists_of_setFields hu'
  exact List.append_inj_left (Value.record.inj hrest) hlen

end

/-! ## §2 — What a setter depends on -/

/-- The setter looks at the type of the place only, not at whether it is given by a link. -/
def ByType (target : String → Option Schema) (w : Setter) : Prop :=
  ∀ {s t : Schema}, resolve target s = resolve target t → w target s = w target t

theorem byType_setScalar (target : String → Option Schema) (v : Value) : ByType target (setScalar v) := by
  intro s t h
  simp only [setScalar, h]

theorem byType_leave (target : String → Option Schema) : ByType target leave := by
  intro s t h
  simp only [leave, h]

theorem byType_setFields (target : String → Option Schema) (ws : List Setter) :
    ByType target (setFields ws) := by
  intro s t h
  simp only [setFields, h]

/-- The setter looks at the types of the branches of a union only. -/
def ByBranches (target : String → Option Schema) (w : Setter) : Prop :=
  ∀ {ss ts : List Schema}, ss.map (resolve target) = ts.map (resolve target) →
    w target (.union ss) = w target (.union ts)

theorem byBranches_setBranch {target : String → Option Schema} (branch : Nat) {w : Setter}
    (hw : ByType target w) : ByBranches target (setBranch branch w) := by
  intro ss ts h
  have hbranch : (ss[branch]?).map (resolve target) = (ts[branch]?).map (resolve target) := by
    rw [← List.getElem?_map, h, List.getElem?_map]
  simp only [setBranch, resolve]
  cases hs : ss[branch]? with
  | none =>
    rw [hs, Option.map_none, eq_comm, Option.map_eq_none_iff] at hbranch
    rw [hbranch]
  | some s =>
    rw [hs, Option.map_some, eq_comm, Option.map_eq_some_iff] at hbranch
    obtain ⟨t, ht, hst⟩ := hbranch
    rw [ht, Option.bind_some, Option.bind_some, hw hst.symm]

/-! ## §3 — Sound setters -/

section

variable {target : String → Option Schema} {isLink : String → Value → Bool}

/-- A link has the values of the type that it points to. -/
def Follows (target : String → Option Schema) (isLink : String → Value → Bool) : Prop :=
  ∀ name s v, target name = some s → conforms isLink s v → isLink name v

/-- **`Sound target isLink w`** — whatever the setter writes is a value of the schema. -/
def Sound (target : String → Option Schema) (isLink : String → Value → Bool) (w : Setter) : Prop :=
  ∀ s v, w target s = some v → conforms isLink s v

theorem conforms_of_resolve (hfollows : Follows target isLink) {s t : Schema} {v : Value}
    (hs : resolve target s = some t) (hv : conforms isLink t v) : conforms isLink s v := by
  cases s with
  | link name =>
    rw [conforms]
    exact hfollows name t v hs hv
  | _ =>
    cases hs
    exact hv

theorem conforms_of_takes {s : Schema} {v : Value} (h : takes s v) : conforms isLink s v := by
  unfold takes at h
  split at h <;> simp_all [conforms]

theorem sound_setScalar (hfollows : Follows target isLink) (v : Value) :
    Sound target isLink (setScalar v) := by
  intro s w h
  obtain ⟨t, ht, hw⟩ := Option.bind_eq_some_iff.mp h
  apply conforms_of_resolve hfollows ht
  split at hw
  · cases hw
    exact conforms_of_takes ‹_›
  · cases hw

theorem conforms_initial {s : Schema} {v : Value} (h : initial s = some v) : conforms isLink s v := by
  unfold initial at h
  split at h <;> cases h <;> simp [conforms, maxSize]

theorem sound_leave (hfollows : Follows target isLink) : Sound target isLink leave := by
  intro s v h
  obtain ⟨t, ht, hv⟩ := Option.bind_eq_some_iff.mp h
  exact conforms_of_resolve hfollows ht (conforms_initial hv)

theorem conformsBranch_of_getElem? {branches : List Schema} {s : Schema} {v : Value} :
    ∀ {n : Nat}, branches[n]? = some s → conforms isLink s v → conformsBranch isLink branches n v := by
  induction branches with
  | nil => intro n h; simp at h
  | cons first branches ih =>
    intro n h hv
    cases n with
    | zero =>
      obtain rfl : first = s := by simpa using h
      rwa [conformsBranch]
    | succ n =>
      rw [conformsBranch]
      exact ih (by simpa using h) hv

theorem sound_setBranch (hfollows : Follows target isLink) {branch : Nat} {w : Setter}
    (hbranch : branch < maxSize) (hw : Sound target isLink w) :
    Sound target isLink (setBranch branch w) := by
  intro s v h
  unfold setBranch at h
  split at h
  · rename_i branches hs
    obtain ⟨t, ht, h⟩ := Option.bind_eq_some_iff.mp h
    obtain ⟨u, hu, rfl⟩ := Option.map_eq_some_iff.mp h
    apply conforms_of_resolve hfollows hs
    rw [conforms, Bool.and_eq_true, decide_eq_true_eq]
    exact ⟨hbranch, conformsBranch_of_getElem? ht (hw t u hu)⟩
  · cases h

theorem conformsFields_writeFields (hfollows : Follows target isLink) {fields : List (String × Schema)} :
    ∀ {ws : List Setter} {vs : List Value}, (∀ w ∈ ws, Sound target isLink w) →
      writeFields target fields ws = some vs → conformsFields isLink fields vs := by
  induction fields with
  | nil =>
    intro ws vs hws h
    cases ws with
    | nil =>
      cases h
      rw [conformsFields]
    | cons w ws => cases h
  | cons f fields ih =>
    intro ws vs hws h
    cases ws with
    | nil =>
      obtain ⟨v, hv, h⟩ := Option.bind_eq_some_iff.mp h
      obtain ⟨vs, hvs, ⟨⟩⟩ := Option.bind_eq_some_iff.mp h
      rw [conformsFields, conformsField, Bool.and_eq_true]
      exact ⟨sound_leave hfollows _ _ hv, ih hws hvs⟩
    | cons w ws =>
      obtain ⟨v, hv, h⟩ := Option.bind_eq_some_iff.mp h
      obtain ⟨vs, hvs, ⟨⟩⟩ := Option.bind_eq_some_iff.mp h
      rw [conformsFields, conformsField, Bool.and_eq_true]
      exact ⟨hws w List.mem_cons_self _ _ hv, ih (fun w hw => hws w (List.mem_cons_of_mem _ hw)) hvs⟩

theorem sound_setFields (hfollows : Follows target isLink) {ws : List Setter}
    (hws : ∀ w ∈ ws, Sound target isLink w) : Sound target isLink (setFields ws) := by
  intro s v h
  unfold setFields at h
  split at h
  · rename_i fields hs
    obtain ⟨vs, hvs, rfl⟩ := Option.map_eq_some_iff.mp h
    apply conforms_of_resolve hfollows hs
    rw [conforms]
    exact conformsFields_writeFields hfollows hws hvs
  · cases h

/-- A record of numbers has no link inside. -/
theorem conformsFields_of_numbers {isLink' : String → Value → Bool} {fields : List (String × Schema)}
    (hfields : ∀ f ∈ fields, f.2 = .int ∨ f.2 = .long) :
    ∀ {vs : List Value}, conformsFields isLink fields vs → conformsFields isLink' fields vs := by
  induction fields with
  | nil =>
    intro vs h
    cases vs with
    | nil => rw [conformsFields]
    | cons v vs => simp [conformsFields] at h
  | cons f fields ih =>
    obtain ⟨name, type⟩ := f
    have hrest := @ih fun f hf => hfields f (List.mem_cons_of_mem _ hf)
    intro vs h
    cases vs with
    | nil => simp [conformsFields] at h
    | cons v vs =>
      rw [conformsFields, conformsField, Bool.and_eq_true] at h ⊢
      obtain ⟨hv, hvs⟩ := h
      refine ⟨?_, hrest hvs⟩
      obtain rfl | rfl : type = .int ∨ type = .long := hfields _ List.mem_cons_self
      · cases v <;> simp_all [conforms]
      · cases v <;> simp_all [conforms]

end

/-! ## §4 — Fields with one branch -/

/-- **`OneBranch p w`** — the setter fails, or it chooses a branch with `p` and leaves it, sets it to a
scalar or sets the fields of a record to scalars. -/
inductive OneBranch (p : Nat → Prop) : Setter → Prop
  | fails : OneBranch p fun _ _ => none
  | leave (branch : Nat) (hbranch : p branch) : OneBranch p (setBranch branch leave)
  | scalar (branch : Nat) (hbranch : p branch) (v : Value) : OneBranch p (setBranch branch (setScalar v))
  | fields (branch : Nat) (hbranch : p branch) (vs : List Value) :
      OneBranch p (setBranch branch (setFields (vs.map setScalar)))

section

variable {target : String → Option Schema} {isLink : String → Value → Bool} {p : Nat → Prop}
  {w : Setter}

theorem setBranch_setScalar {branch : Nat} {branches : List Schema} {s : Schema} {v : Value}
    (hbranch : branches[branch]? = some s) (hs : resolve target s = some s) (hv : takes s v) :
    setBranch branch (setScalar v) target (.union branches) = some (.union branch v) := by
  simp only [setBranch, resolve, hbranch, Option.bind_some]
  rw [setScalar, hs, Option.bind_some, if_pos hv]
  rfl

theorem OneBranch.mono {q : Nat → Prop} (hpq : ∀ branch, p branch → q branch) (h : OneBranch p w) :
    OneBranch q w := by
  cases h with
  | fails => exact .fails
  | leave branch hbranch => exact .leave branch (hpq branch hbranch)
  | scalar branch hbranch v => exact .scalar branch (hpq branch hbranch) v
  | fields branch hbranch vs => exact .fields branch (hpq branch hbranch) vs

theorem OneBranch.exists_branch (h : OneBranch p w) {s : Schema} {v : Value} (hv : w target s = some v) :
    ∃ branch u, p branch ∧ v = .union branch u := by
  cases h with
  | fails => cases hv
  | leave branch hbranch | scalar branch hbranch | fields branch hbranch =>
    obtain ⟨-, u, -, rfl⟩ := exists_of_setBranch hv
    exact ⟨branch, u, hbranch, rfl⟩

theorem OneBranch.byBranches (h : OneBranch p w) : ByBranches target w := by
  cases h with
  | fails => exact fun _ => rfl
  | leave branch => exact byBranches_setBranch branch (byType_leave _)
  | scalar branch _ v => exact byBranches_setBranch branch (byType_setScalar _ v)
  | fields branch _ vs => exact byBranches_setBranch branch (byType_setFields _ _)

theorem OneBranch.sound (hfollows : Follows target isLink) (hp : ∀ branch, p branch → branch < maxSize)
    (h : OneBranch p w) : Sound target isLink w := by
  cases h with
  | fails => exact fun _ _ h => nomatch h
  | leave branch hbranch => exact sound_setBranch hfollows (hp branch hbranch) (sound_leave hfollows)
  | scalar branch hbranch v =>
    exact sound_setBranch hfollows (hp branch hbranch) (sound_setScalar hfollows v)
  | fields branch hbranch vs =>
    apply sound_setBranch hfollows (hp branch hbranch)
    apply sound_setFields hfollows
    intro w hw
    obtain ⟨v, -, rfl⟩ := List.mem_map.mp hw
    exact sound_setScalar hfollows v

end

end BottledWater.Lib.Avro
