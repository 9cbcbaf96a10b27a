/-
  Ideal flash memory in pages.

  An erase sets a whole page to 0xFF. A write is refused unless the bytes it covers are all
  erased, and then stores its data. A session is a list of such operations, and `none` if one
  of them is refused.

  * `run_erases`: erases are never refused, and leave 0xFF in each of their pages.
  * `run_writes`: adjoining writes into erased bytes are never refused, and store the
    concatenation of their data.
-/
import CanBootloader.Lib.Bytes

namespace CanBootloader.Lib.PagedFlash

/-- An operation on flash memory. -/
inductive Op where
  | erase (address : Nat)
  | write (address : Nat) (data : List UInt8)
  deriving DecidableEq, Repr

def Erased (m : Store) (address len : Nat) : Prop := ∀ i < len, m (address + i) = 0xFF

instance (m : Store) (address len : Nat) : Decidable (Erased m address len) :=
  inferInstanceAs (Decidable (∀ i < len, _))

/-- The page containing the address set to 0xFF. -/
def erasePage (pageSize address : Nat) (m : Store) : Store :=
  fun x => if x / pageSize = address / pageSize then 0xFF else m x

/-- Several pages set to 0xFF, by an address in each. -/
def erasePages (pageSize : Nat) (addresses : List Nat) (m : Store) : Store :=
  fun x => if ∃ a ∈ addresses, x / pageSize = a / pageSize then 0xFF else m x

/-- One operation; `none` if it is refused. -/
def step (pageSize : Nat) (m : Store) : Op → Option Store
  | .erase address => some (erasePage pageSize address m)
  | .write address data =>
      if Erased m address data.length then some (m.blit address data) else none

/-- Operations one after the other, up to the first that is refused. -/
def run (pageSize : Nat) (m : Store) (ops : List Op) : Option Store :=
  ops.foldlM (step pageSize) m

variable {pageSize : Nat} {m : Store}

theorem run_append (xs ys : List Op) :
    run pageSize m (xs ++ ys) = (run pageSize m xs).bind fun m' => run pageSize m' ys :=
  List.foldlM_append ..

theorem run_erase_cons (address : Nat) (ops : List Op) :
    run pageSize m (.erase address :: ops) = run pageSize (erasePage pageSize address m) ops := by
  simp [run, step]

theorem run_write_cons {address : Nat} {data : List UInt8} (ops : List Op)
    (h : Erased m address data.length) :
    run pageSize m (.write address data :: ops) = run pageSize (m.blit address data) ops := by
  simp [run, step, h]

/-- Erasing page after page. -/
theorem run_erases (addresses : List Nat) : ∀ m : Store,
    run pageSize m (addresses.map .erase) = some (erasePages pageSize addresses m) := by
  induction addresses with
  | nil =>
      intro m
      have hnone : erasePages pageSize [] m = m := funext fun x => by simp [erasePages]
      rw [hnone]
      rfl
  | cons a addresses ih =>
      intro m
      rw [List.map_cons, run_erase_cons, ih]
      congr 1
      funext x
      by_cases ha : x / pageSize = a / pageSize
      · simp [erasePages, erasePage, ha]
      · simp [erasePages, erasePage, ha]

/-- Writes of adjoining pieces, from `address` on. -/
def writesFrom (address : Nat) : List (List UInt8) → List Op
  | [] => []
  | data :: rest => .write address data :: writesFrom (address + data.length) rest

/-- Adjoining writes into erased bytes. Induction on the pieces: those written before are below
    the address, so the bytes of the next one are still erased. -/
theorem run_writes (pieces : List (List UInt8)) : ∀ (m : Store) (address : Nat),
    Erased m address pieces.flatten.length →
    run pageSize m (writesFrom address pieces) = some (m.blit address pieces.flatten) := by
  induction pieces with
  | nil =>
      intro m address _
      rfl
  | cons data rest ih =>
      intro m address herased
      rw [List.flatten_cons, List.length_append] at herased
      have hhead : Erased m address data.length := fun i hi => herased i (by omega)
      have htail : Erased (m.blit address data) (address + data.length) rest.flatten.length := by
        intro i hi
        rw [Store.blit_ge _ _ _ _ (by omega), Nat.add_assoc]
        exact herased (data.length + i) (by omega)
      rw [writesFrom, run_write_cons _ hhead, ih _ _ htail, Store.blit_append, List.flatten_cons]

end CanBootloader.Lib.PagedFlash
