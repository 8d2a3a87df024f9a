import Mathlib.Data.List.Basic
import Mathlib.Tactic

set_option autoImplicit false

/-!
# Buffers of fixed-size records

A list of records, each written as `w` cells, kept end to end in one buffer. Slicing, slice
assignment and truncation at multiples of `w` are the list operations on the records.

## Main definitions

* `Records.pack` — the buffer of a list of records.
* `Records.slice`, `Records.setSlice` — `buf[i:j]` and `buf[i:j] = x`.

## Main results

* `Records.slice_pack`, `Records.setSlice_pack`, `Records.take_pack` — reading, overwriting and
  truncating a buffer of records.
* `Records.slice_setSlice_self`, `Records.slice_setSlice_ne` — reading after an assignment.
* `Records.eq_pack_of_slice` — a buffer is given by the records read from it.
-/

namespace Records

variable {α β : Type}

/-- The buffer that holds the records `l` one after the other, `f` giving the cells of one. -/
def pack (f : α → List β) (l : List α) : List β := l.flatMap f

/-- `buf[i:j]`. -/
def slice (buf : List β) (i j : ℕ) : List β := (buf.drop i).take (j - i)

/-- `buf[i:j] = x`. -/
def setSlice (buf : List β) (i j : ℕ) (x : List β) : List β := buf.take i ++ x ++ buf.drop j

variable {f : α → List β} {w : ℕ}

@[simp] lemma pack_nil : pack f [] = [] := rfl

@[simp] lemma pack_cons (a : α) (l : List α) : pack f (a :: l) = f a ++ pack f l := rfl

@[simp] lemma pack_append (l l' : List α) : pack f (l ++ l') = pack f l ++ pack f l' := by
  simp [pack]

variable {l : List α} {i : ℕ}

section

variable (hf : ∀ a, (f a).length = w)

include hf

lemma length_pack (l : List α) : (pack f l).length = l.length * w := by
  induction l with
  | nil => simp
  | cons a l ih =>
    rw [pack_cons, List.length_append, hf, ih, List.length_cons]
    ring

/-- Truncating a buffer after `n` records. -/
lemma take_pack (n : ℕ) (l : List α) : (pack f l).take (n * w) = pack f (l.take n) := by
  induction n generalizing l with
  | zero => simp
  | succ n ih =>
    cases l with
    | nil => simp
    | cons a l =>
      have hn : (n + 1) * w = (f a).length + n * w := by rw [hf]; ring
      rw [pack_cons, hn, List.take_length_add_append, ih, List.take_succ_cons, pack_cons]

/-- Dropping the first `n` records of a buffer. -/
lemma drop_pack (n : ℕ) (l : List α) : (pack f l).drop (n * w) = pack f (l.drop n) := by
  induction n generalizing l with
  | zero => simp
  | succ n ih =>
    cases l with
    | nil => simp
    | cons a l =>
      have hn : (n + 1) * w = (f a).length + n * w := by rw [hf]; ring
      rw [pack_cons, hn, List.drop_length_add_append, ih, List.drop_succ_cons]

lemma slice_pack {a : α} (h : l[i]? = some a) : slice (pack f l) (i * w) (i * w + w) = f a := by
  obtain ⟨hi, rfl⟩ := List.getElem?_eq_some_iff.mp h
  rw [slice, drop_pack hf, List.drop_eq_getElem_cons hi, pack_cons, Nat.add_sub_cancel_left]
  rw [List.take_append_of_le_length (hf _).ge, List.take_of_length_le (hf _).le]

lemma setSlice_pack (a : α) :
    setSlice (pack f l) (i * w) (i * w + w) (f a) = pack f (l.take i ++ a :: l.drop (i + 1)) := by
  have hi : i * w + w = (i + 1) * w := by ring
  rw [setSlice, take_pack hf, hi, drop_pack hf, pack_append, pack_cons, List.append_assoc]

end

lemma pack_replicate (n : ℕ) (a : α) {b : β} (h : f a = List.replicate w b) :
    pack f (List.replicate n a) = List.replicate (n * w) b := by
  induction n with
  | zero => simp
  | succ n ih =>
    rw [List.replicate_succ, pack_cons, ih, h, List.replicate_append_replicate]
    congr 1
    ring

variable {buf x : List β}

lemma length_setSlice (hi : i + w ≤ buf.length) (hx : x.length = w) :
    (setSlice buf i (i + w) x).length = buf.length := by
  simp only [setSlice, List.length_append, List.length_take, List.length_drop, hx]
  omega

lemma slice_setSlice_self (hi : i ≤ buf.length) (hx : x.length = w) :
    slice (setSlice buf i (i + w) x) i (i + w) = x := by
  have hlen : (buf.take i).length = i := by simpa using hi
  rw [slice, setSlice, List.append_assoc, List.drop_left' hlen, List.take_left' (by omega)]

/-- A slice assignment at one record leaves the other records as they are. -/
lemma slice_setSlice_ne {j : ℕ} (hi : i * w + w ≤ buf.length) (hx : x.length = w) (hij : j ≠ i) :
    slice (setSlice buf (i * w) (i * w + w) x) (j * w) (j * w + w) =
      slice buf (j * w) (j * w + w) := by
  have hlen : (buf.take (i * w)).length = i * w := by
    rw [List.length_take]
    omega
  rw [slice, slice, Nat.add_sub_cancel_left, setSlice, List.append_assoc]
  rcases Nat.lt_or_gt_of_ne hij with hlt | hlt
  · -- the record read ends before the assigned one starts
    have hj : j * w + w ≤ i * w := by
      calc j * w + w = (j + 1) * w := by ring
        _ ≤ i * w := Nat.mul_le_mul_right w hlt
    rw [List.drop_append_of_le_length (by omega),
      List.take_append_of_le_length (by rw [List.length_drop]; omega), List.drop_take,
      List.take_take, min_eq_left (by omega)]
  · have hj : i * w + w ≤ j * w := by
      calc i * w + w = (i + 1) * w := by ring
        _ ≤ j * w := Nat.mul_le_mul_right w hlt
    have hsplit : j * w = i * w + (w + (j * w - (i * w + w))) := by omega
    have hdrop : (buf.take (i * w) ++ (x ++ buf.drop (i * w + w))).drop (j * w) =
        buf.drop (j * w) := by
      conv_lhs => rw [hsplit]
      rw [← List.drop_drop, List.drop_left' hlen, ← List.drop_drop, List.drop_left' hx,
        List.drop_drop]
      congr 1
      omega
    rw [hdrop]

lemma eq_pack_of_slice (hlen : buf.length = l.length * w)
    (h : ∀ i a, l[i]? = some a → slice buf (i * w) (i * w + w) = f a) : buf = pack f l := by
  induction l generalizing buf with
  | nil => simpa using hlen
  | cons a l ih =>
    have hw : w ≤ buf.length := by
      rw [hlen, List.length_cons]
      nlinarith
    have hhead : buf.take w = f a := by simpa [slice] using h 0 a rfl
    have htail : buf.drop w = pack f l := by
      apply ih
      · rw [List.length_drop, hlen, List.length_cons, Nat.succ_mul, Nat.add_sub_cancel]
      · intro i b hi
        have := h (i + 1) b hi
        rw [slice, Nat.add_sub_cancel_left] at this ⊢
        rwa [List.drop_drop, show w + i * w = (i + 1) * w by ring]
    rw [pack_cons, ← hhead, ← htail, List.take_append_drop]

end Records
