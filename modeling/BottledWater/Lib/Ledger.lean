/-
# BottledWater.Lib.Ledger — handles that are given out and given back.

An account of handles has three lists: those issued so far, those released, and those somebody holds.
It is balanced if every issued handle is in exactly one of the other two places, once.  Issuing a fresh
handle and releasing a held one keep the balance; when the holder releases all it has, every handle has
been released exactly once.  A handle that is released while it stays held breaks the balance for good.

`Trades` is the specification of a procedure on an account, with a rule for each way to put procedures
together; the handles it does not name are framed out.
-/
import Mathlib.Data.List.Nodup
import Mathlib.Data.List.Range
import Mathlib.Data.List.Perm.Basic

namespace BottledWater.Lib

variable {α : Type*}

/-- **`Balanced issued released held`** — what was issued has been released or is held, each handle once. -/
structure Balanced (issued released held : List α) : Prop where
  nodup : issued.Nodup
  perm : issued.Perm (released ++ held)

namespace Balanced

variable {issued released held held' : List α} {a : α}

theorem nil : Balanced ([] : List α) [] [] := ⟨List.nodup_nil, List.Perm.nil⟩

/-- The order in which handles are held does not count. -/
theorem congr (h : Balanced issued released held) (hheld : held.Perm held') :
    Balanced issued released held' :=
  ⟨h.nodup, h.perm.trans (hheld.append_left released)⟩

theorem issue (h : Balanced issued released held) (hfresh : a ∉ issued) :
    Balanced (issued ++ [a]) released (a :: held) := by
  refine ⟨?_, ?_⟩
  · exact List.nodup_append_comm.mp (List.nodup_cons.mpr ⟨hfresh, h.nodup⟩)
  · calc (issued ++ [a]).Perm (a :: issued) := List.perm_append_singleton a issued
      List.Perm _ (a :: (released ++ held)) := h.perm.cons a
      List.Perm _ (released ++ a :: held) := List.perm_middle.symm

theorem release (h : Balanced issued released (a :: held)) :
    Balanced issued (released ++ [a]) held := by
  refine ⟨h.nodup, ?_⟩
  rw [List.append_assoc]
  exact h.perm

/-- Several handles released one after another. -/
theorem release_append (h : Balanced issued released (held' ++ held)) :
    Balanced issued (released ++ held') held :=
  ⟨h.nodup, by rw [List.append_assoc]; exact h.perm⟩

/-- What is held has not been released. -/
theorem not_released (h : Balanced issued released held) (ha : a ∈ held) : a ∉ released := by
  intro hmem
  exact (List.nodup_append.mp (h.perm.nodup_iff.mp h.nodup)).2.2 a hmem a ha rfl

/-- **When all that is held is released, every handle has been released exactly once.** -/
theorem count_release_all [DecidableEq α] (h : Balanced issued released held) (ha : a ∈ issued) :
    (released ++ held).count a = 1 := by
  rw [← h.perm.count_eq, List.count_eq_one_of_mem h.nodup ha]

end Balanced

/-! ## Accounts -/

/-- An account whose handles are numbered in the order in which they are issued. -/
structure Account where
  issued : Nat
  released : List Nat

abbrev AccountM := StateM Account

namespace Account

def issue : AccountM Nat := modifyGet fun c => (c.issued, { c with issued := c.issued + 1 })

def release (handles : List Nat) : AccountM Unit :=
  modify fun c => { c with released := c.released ++ handles }

/-- What was issued and not released is what somebody holds. -/
def Owns (c : Account) (held : List Nat) : Prop := Balanced (List.range c.issued) c.released held

/-- **When all that is held is released, every handle has been released exactly once.** -/
theorem Owns.count_release_all {c : Account} {held : List Nat} {handle : Nat} (h : c.Owns held)
    (hissued : handle < c.issued) : (c.released ++ held).count handle = 1 :=
  Balanced.count_release_all h (List.mem_range.mpr hissued)

end Account

variable {β : Type} {given mid : List Nat}

/-- **`Trades given x got`** — `x` uses up the handles `given` and leaves those of its result; what else is
held stays held. -/
def Trades (given : List Nat) (x : AccountM β) (got : β → List Nat) : Prop :=
  ∀ (c : Account) (rest : List Nat), c.Owns (given ++ rest) → (x.run c).2.Owns (got (x.run c).1 ++ rest)

namespace Trades

variable {γ : Type} {x : AccountM β} {f : β → AccountM γ} {got : β → List Nat} {gain : γ → List Nat}

theorem pure {b : β} (h : given.Perm (got b)) : Trades given (pure b) got :=
  fun _ rest hc => hc.congr (h.append_right rest)

theorem issue (held : List Nat) : Trades held Account.issue (fun handle => handle :: held) := by
  intro c rest h
  show Balanced (List.range (c.issued + 1)) c.released (c.issued :: (held ++ rest))
  rw [List.range_succ]
  exact h.issue (by simp)

theorem release (handles held : List Nat) :
    Trades (handles ++ held) (Account.release handles) (fun _ => held) := by
  intro c rest h
  rw [List.append_assoc] at h
  exact h.release_append

theorem bind (hx : Trades given x got) (hf : ∀ b, Trades (got b) (f b) gain) :
    Trades given (x >>= f) gain :=
  fun c rest h => hf _ _ rest (hx c rest h)

/-- What is not used stays in hand. -/
theorem frame (h : Trades given x got) (more : List Nat) :
    Trades (given ++ more) x (fun b => got b ++ more) := by
  intro c rest hc
  rw [List.append_assoc] at hc ⊢
  exact h c (more ++ rest) hc

/-- The order of what is in hand does not count. -/
theorem pre (h : Trades given x got) (hgiven : mid.Perm given) : Trades mid x got :=
  fun c rest hc => h c rest (hc.congr (hgiven.append_right rest))

end Trades

end BottledWater.Lib
