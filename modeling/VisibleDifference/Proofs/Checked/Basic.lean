import VisibleDifference.Picture.Bitmap

/-!
# Checked computations

A computation on stored arrays with machine-sized numbers either gives a result or stops at a
trap: a check that fails, a place outside an array, or a number too large for its type. Each
operation has the condition under which it does not trap. A counted loop does not trap if each of
its steps takes the stored form of one state to the stored form of the next; `forEach_simulates`
says so with an invariant that may depend on the number of steps taken. `foldlM_done` is for loops
over a list whose items need room.
-/

namespace VisibleDifference

universe u v

/-- Why a computation stops without a result. -/
inductive Trap where
  | failedCheck
  | outOfRange
  | overflow
deriving DecidableEq, Repr

abbrev Checked (α : Type u) := Except Trap α

namespace Checked

variable {α : Type u} {σ : Type u} {τ : Type v}

@[simp] theorem ok_bind {β : Type u} (a : α) (f : α → Checked β) :
    (Except.ok a : Checked α) >>= f = f a := rfl

@[simp] theorem pure_eq_ok (a : α) : (pure a : Checked α) = .ok a := rfl

def require (p : Prop) [Decidable p] : Checked Unit :=
  if p then .ok () else .error .failedCheck

@[simp] theorem require_of {p : Prop} [Decidable p] (hp : p) : require p = .ok () := if_pos hp

theorem require_of_not {p : Prop} [Decidable p] (hp : ¬p) : require p = .error .failedCheck :=
  if_neg hp

/-- A number that has to be a size or an address. -/
def size (n : Nat) : Checked Nat := if n < addressLimit then .ok n else .error .overflow

theorem size_of_lt {n : Nat} (hn : n < addressLimit) : size n = .ok n := if_pos hn

/-- A difference of sizes, which must not be negative. -/
def difference (n m : Nat) : Checked Nat := if m ≤ n then .ok (n - m) else .error .overflow

theorem difference_of_le {n m : Nat} (hm : m ≤ n) : difference n m = .ok (n - m) := if_pos hm

def distanceLimit : Nat := 1 <<< 63

/-- A number that has to be a distance between addresses. -/
def distance (i : Int) : Checked Int :=
  if -(distanceLimit : Int) ≤ i ∧ i < distanceLimit then .ok i else .error .overflow

theorem distance_of_natAbs_lt {i : Int} (hi : i.natAbs < distanceLimit) : distance i = .ok i :=
  if_pos (by omega)

/-- A number that has to fit the word of a pixel. -/
def word (n : Nat) : Checked Nat := if n < UInt32.size then .ok n else .error .overflow

theorem word_of_lt {n : Nat} (hn : n < UInt32.size) : word n = .ok n := if_pos hn

def read (xs : Array α) (i : Nat) : Checked α :=
  if hi : i < xs.size then .ok xs[i] else .error .outOfRange

theorem read_of_lt {xs : Array α} {i : Nat} (hi : i < xs.size) : read xs i = .ok xs[i] :=
  dif_pos hi

def write (xs : Array α) (i : Nat) (a : α) : Checked (Array α) :=
  if hi : i < xs.size then .ok (xs.set i a) else .error .outOfRange

theorem write_of_lt {xs : Array α} {i : Nat} (a : α) (hi : i < xs.size) :
    write xs i a = .ok (xs.set i a) := dif_pos hi

def slice (xs : Array α) (start stop : Nat) : Checked (Array α) :=
  if start ≤ stop ∧ stop ≤ xs.size then .ok (xs.extract start stop) else .error .outOfRange

theorem slice_of_le {xs : Array α} {start stop : Nat} (hs : start ≤ stop) (he : stop ≤ xs.size) :
    slice xs start stop = .ok (xs.extract start stop) := if_pos ⟨hs, he⟩

theorem read_extract {xs : Array α} {start stop i : Nat} (hi : start + i < stop)
    (hs : stop ≤ xs.size) : read (xs.extract start stop) i = read xs (start + i) := by
  have hlt : i < (xs.extract start stop).size := by
    rw [Array.size_extract]
    omega
  rw [read_of_lt hlt, read_of_lt (by omega), Array.getElem_extract]

/-- Runs the steps `0`, …, `n - 1`. -/
def forEach (n : Nat) (s : σ) (f : σ → Nat → Checked σ) : Checked σ := (List.range n).foldlM f s

theorem forEach_succ (n : Nat) (s : σ) (f : σ → Nat → Checked σ) :
    forEach (n + 1) s f = forEach n s f >>= fun s => f s n := by
  simp only [forEach, List.range_succ, List.foldlM_append, List.foldlM_cons, List.foldlM_nil]
  congr 1
  funext s
  cases f s n <;> rfl

/-- A loop that is in state `s i` before step `i` ends in state `s n`. -/
theorem forEach_eq {f : σ → Nat → Checked σ} (s : Nat → σ) (n : Nat)
    (hf : ∀ i < n, f (s i) i = .ok (s (i + 1))) : forEach n (s 0) f = .ok (s n) := by
  induction n with
  | zero => rfl
  | succ n ih =>
    rw [forEach_succ, ih fun i hi => hf i (Nat.lt_succ_of_lt hi), ok_bind]
    exact hf n (Nat.lt_succ_self n)

/-- Steps that simulate `g` on stored states, while `inv` holds, make a loop that does. -/
theorem forEach_simulates (stored : τ → σ) (inv : Nat → τ → Prop) {n : Nat}
    {f : σ → Nat → Checked σ} {g : τ → Fin n → τ}
    (hf : ∀ (i : Fin n) (t : τ), inv i.val t →
      f (stored t) i.val = .ok (stored (g t i)) ∧ inv (i.val + 1) (g t i))
    (t : τ) (ht : inv 0 t) :
    forEach n (stored t) f = .ok (stored ((List.finRange n).foldl g t)) ∧
      inv n ((List.finRange n).foldl g t) := by
  induction n with
  | zero => exact ⟨rfl, ht⟩
  | succ n ih =>
    obtain ⟨hr, hi⟩ := ih (g := fun t i => g t i.castSucc) fun i t => hf i.castSucc t
    have hl := hf (Fin.last n) _ hi
    rw [forEach_succ, hr, List.finRange_succ_last, List.foldl_append, List.foldl_map]
    exact hl

/-- Steps that never trap on stored states need no invariant. -/
theorem forEach_stored (stored : τ → σ) {n : Nat} {f : σ → Nat → Checked σ} {g : τ → Fin n → τ}
    (hf : ∀ (i : Fin n) (t : τ), f (stored t) i.val = .ok (stored (g t i))) (t : τ) :
    forEach n (stored t) f = .ok (stored ((List.finRange n).foldl g t)) :=
  (forEach_simulates stored (fun _ _ => True) (fun i t _ => ⟨hf i t, trivial⟩) t trivial).1

theorem forEach_foldl {n : Nat} {f : σ → Nat → Checked σ} {g : σ → Fin n → σ}
    (hf : ∀ (i : Fin n) (s : σ), f s i.val = .ok (g s i)) (s : σ) :
    forEach n s f = .ok ((List.finRange n).foldl g s) :=
  forEach_stored (fun s => s) hf s

/-- A list is gone through, its items being added to those done, while there is room. -/
theorem foldlM_done {ι : Type v} {f : σ → ι → Checked σ} {s : List ι → σ} {n : Nat}
    (hf : ∀ done i, done.length < n → f (s done) i = .ok (s (done ++ [i])))
    (done items : List ι) (hn : done.length + items.length ≤ n) :
    items.foldlM f (s done) = .ok (s (done ++ items)) := by
  induction items generalizing done with
  | nil =>
    rw [List.append_nil]
    rfl
  | cons i items ih =>
    rw [List.length_cons] at hn
    have hd : (done ++ [i]).length + items.length ≤ n := by
      rw [List.length_append, List.length_singleton]
      omega
    rw [List.foldlM_cons, hf done i (by omega), ok_bind, ih _ hd, List.append_assoc,
      List.singleton_append]

theorem allM_eq_ok {f : Nat → Checked Bool} {g : Nat → Bool} (l : List Nat)
    (hf : ∀ i ∈ l, f i = .ok (g i)) : l.allM f = .ok (l.all g) := by
  induction l with
  | nil => rfl
  | cons i l ih =>
    have hi := hf i List.mem_cons_self
    have hl := ih fun j hj => hf j (List.mem_cons_of_mem i hj)
    rw [List.allM, hi, ok_bind, List.all_cons]
    cases g i with
    | false => rfl
    | true => exact hl

end Checked

end VisibleDifference
