import Chives.Library.ExceptRun
import Mathlib.Tactic

set_option autoImplicit false

/-!
# Rows written in batches

A loop collects rows and writes them to a database whenever it has enough of them, in a transaction of their own;
what is left is written after the loop. Something may be measured after every batch, which may fail.

## Main definitions

* `Batches.Session` — a connection to the database that is written.
* `Batches.Batch`, `Batches.Batch.add`, `Batches.Batch.finish` — the rows so far, one more row, and the rows left.
* `Batches.insertInBatches` — the loop.

## Main results

* `Batches.insertInBatches_eq` — the rows are written as if one after the other, if every measurement succeeds, and
  the loop fails otherwise.
-/

namespace Batches

open ExceptRun

variable {T ρ ε : Type}

/-- A connection: the contents, what is saved of them, and whether a transaction is open. -/
structure Session (T : Type) where
  tables : T
  committed : T
  inTransaction : Bool

/-- `BEGIN`, which fails within a transaction. -/
def Session.begin (nested : ε) (s : Session T) : Except ε (Session T) :=
  if s.inTransaction then .error nested else .ok { s with inTransaction := true }

/-- Statements that insert rows, which open a transaction. -/
def Session.executemany (insert : T → ρ → Except ε T) (s : Session T) (rows : List ρ) : Except ε (Session T) := do
  let tables ← rows.foldlM insert s.tables
  return ⟨tables, s.committed, true⟩

/-- `COMMIT`. -/
def Session.commit (s : Session T) : Session T := ⟨s.tables, s.tables, false⟩

/-- The rows of a loop so far: when the next batch is written, the rows not written yet, the number of batches, and
the connection. -/
structure Batch (T ρ : Type) where
  commitIn : ℕ
  values : List ρ
  flushes : ℕ
  out : Session T

section Loop

variable (nested unmeasured : ε) (rate : ℕ) (insert : T → ρ → Except ε T) (measured : ℕ → Bool)

/-- The start of the loop. -/
def Batch.start (out : Session T) : Batch T ρ := ⟨rate, [], 0, out⟩

/-- One more row. -/
def Batch.add (b : Batch T ρ) (row : ρ) : Except ε (Batch T ρ) :=
  if b.commitIn - 1 = 0 then do
    let out ← b.out.executemany insert (b.values ++ [row])
    let out ← out.commit.begin nested
    if measured b.flushes then .ok ⟨rate, [], b.flushes + 1, out⟩ else .error unmeasured
  else .ok ⟨b.commitIn - 1, b.values ++ [row], b.flushes, b.out⟩

/-- The rows that are left. -/
def Batch.finish (b : Batch T ρ) : Except ε (Session T) := do
  let out ← b.out.executemany insert b.values
  return out.commit

/-- What a batch holds after some rows. -/
structure Batch.Holds (start : T) (rows : List ρ) (b : Batch T ρ) : Prop where
  pos : 0 < b.commitIn
  le : b.commitIn ≤ rate
  length : rows.length + b.commitIn = rate * (b.flushes + 1)
  inTransaction : b.out.inTransaction = true
  written : ∃ written, rows = written ++ b.values ∧ written.foldlM insert start = .ok b.out.tables

variable {nested unmeasured rate insert measured} {start t : T} {rows more : List ρ} {row : ρ} {b : Batch T ρ}

lemma Batch.holds_start (out : Session T) (hrate : 0 < rate) (hout : out.inTransaction = true) :
    Batch.Holds rate insert out.tables [] (Batch.start rate out) :=
  ⟨hrate, le_rfl, by simp [Batch.start], hout, [], rfl, rfl⟩

lemma Batch.Holds.flushes_eq (h : Batch.Holds rate insert start rows b) : rows.length / rate = b.flushes := by
  have := h.length
  have := h.pos
  have := h.le
  refine Nat.div_eq_of_lt_le ?_ ?_
  · rw [Nat.mul_comm]
    rw [Nat.mul_add, Nat.mul_one] at *
    omega
  · rw [Nat.mul_comm]
    omega

lemma foldlM_append_eq_ok {t : T} (hall : (rows ++ more).foldlM insert start = .ok t) :
    ∃ u, rows.foldlM insert start = .ok u ∧ more.foldlM insert u = .ok t := by
  rw [List.foldlM_append] at hall
  exact bind_eq_ok.mp hall

section

variable (h : Batch.Holds rate insert start rows b)

include h

lemma Batch.Holds.add_flush (hall : (rows ++ [row]).foldlM insert start = .ok t) (hlast : b.commitIn = 1) :
    b.add nested unmeasured rate insert measured row =
      if measured b.flushes then .ok ⟨rate, [], b.flushes + 1, ⟨t, t, true⟩⟩ else .error unmeasured := by
  obtain ⟨written, rfl, hwritten⟩ := h.written
  have hvalues : (b.values ++ [row]).foldlM insert b.out.tables = .ok t := by
    rw [List.append_assoc] at hall
    obtain ⟨u, hu, hrest⟩ := foldlM_append_eq_ok hall
    obtain rfl := Except.ok.inj (hu.symm.trans hwritten)
    exact hrest
  rw [Batch.add, if_pos (by omega), Session.executemany, hvalues]
  simp [Session.commit, Session.begin]

lemma Batch.Holds.flushed (hrate : 0 < rate) (hall : (rows ++ [row]).foldlM insert start = .ok t)
    (hlast : b.commitIn = 1) :
    Batch.Holds rate insert start (rows ++ [row]) ⟨rate, [], b.flushes + 1, ⟨t, t, true⟩⟩ := by
  refine ⟨hrate, le_rfl, ?_, rfl, rows ++ [row], by simp, hall⟩
  have hlen := h.length
  rw [hlast] at hlen
  simp only [List.length_append, List.length_singleton]
  rw [hlen, ← Nat.mul_succ]

lemma Batch.Holds.collected (hlast : b.commitIn ≠ 1) :
    Batch.Holds rate insert start (rows ++ [row]) ⟨b.commitIn - 1, b.values ++ [row], b.flushes, b.out⟩ := by
  have hlen := h.length
  have hpos := h.pos
  have hle := h.le
  obtain ⟨written, hrows, hwritten⟩ := h.written
  refine ⟨by show 0 < b.commitIn - 1; omega, by show b.commitIn - 1 ≤ rate; omega, ?_, h.inTransaction, written,
    by rw [hrows, List.append_assoc], hwritten⟩
  show (rows ++ [row]).length + (b.commitIn - 1) = rate * (b.flushes + 1)
  rw [List.length_append, List.length_singleton, ← hlen]
  omega

end

/-- **The rows of a loop** are written as if one after the other, if every measurement succeeds; otherwise the loop
fails. -/
lemma Batch.Holds.foldlM (nested unmeasured : ε) (measured : ℕ → Bool) (h : Batch.Holds rate insert start rows b)
    (hrate : 0 < rate) (hall : (rows ++ more).foldlM insert start = .ok t) :
    ((∀ k, b.flushes ≤ k → k < (rows ++ more).length / rate → measured k = true) ∧
      ∃ b', more.foldlM (Batch.add nested unmeasured rate insert measured) b = .ok b' ∧
        Batch.Holds rate insert start (rows ++ more) b') ∨
    ((∃ k, b.flushes ≤ k ∧ k < (rows ++ more).length / rate ∧ measured k = false) ∧
      more.foldlM (Batch.add nested unmeasured rate insert measured) b = .error unmeasured) := by
  induction more generalizing rows b with
  | nil =>
    rw [List.append_nil, h.flushes_eq]
    exact .inl ⟨fun k hk hlt => absurd hk (by omega), b, rfl, h⟩
  | cons row more ih =>
    have hsplit : rows ++ row :: more = (rows ++ [row]) ++ more := by simp
    rw [hsplit] at hall ⊢
    obtain ⟨u, hu, -⟩ := foldlM_append_eq_ok hall
    rw [List.foldlM_cons]
    by_cases hlast : b.commitIn = 1
    · have hflushed := h.flushed hrate hu hlast
      have hlt : b.flushes < ((rows ++ [row]) ++ more).length / rate := by
        have hmono : (rows ++ [row]).length / rate ≤ ((rows ++ [row]) ++ more).length / rate :=
          Nat.div_le_div_right (by simp)
        rw [hflushed.flushes_eq] at hmono
        exact hmono
      rw [h.add_flush hu hlast]
      cases hm : measured b.flushes with
      | false => exact .inr ⟨⟨b.flushes, le_rfl, hlt, hm⟩, rfl⟩
      | true =>
        rw [if_pos rfl, ok_bind]
        rcases ih hflushed hall with ⟨hk, hok⟩ | ⟨⟨k, hle, hk⟩, herror⟩
        · refine .inl ⟨fun k hle hlt => ?_, hok⟩
          rcases Nat.eq_or_lt_of_le hle with rfl | hgt
          · exact hm
          · exact hk k hgt hlt
        · exact .inr ⟨⟨k, Nat.le_of_succ_le hle, hk⟩, herror⟩
    · have hcollected : Batch.Holds rate insert start (rows ++ [row]) _ := h.collected hlast
      have hpos := h.pos
      rw [Batch.add, if_neg (by omega), ok_bind]
      exact ih hcollected hall

/-- A loop, from its start to the rows that are left. -/
def insertInBatches (nested unmeasured : ε) (rate : ℕ) (insert : T → ρ → Except ε T) (measured : ℕ → Bool)
    (out : Session T) (rows : List ρ) : Except ε (Session T) := do
  let out ← out.begin nested
  let b ← rows.foldlM (Batch.add nested unmeasured rate insert measured) (Batch.start rate out)
  b.finish insert

/-- **A loop writes its rows as if one after the other**, if every measurement succeeds, and fails otherwise. -/
theorem insertInBatches_eq (hrate : 0 < rate) {out : Session T} (hout : out.inTransaction = false)
    (hall : rows.foldlM insert out.tables = .ok t) :
    insertInBatches nested unmeasured rate insert measured out rows =
      if ∀ k < rows.length / rate, measured k = true then .ok ⟨t, t, false⟩ else .error unmeasured := by
  have hbegin : out.begin nested = .ok { out with inTransaction := true } := by
    rw [Session.begin, hout]
    rfl
  rw [insertInBatches, hbegin, ok_bind]
  have hstart : Batch.Holds rate insert out.tables [] (Batch.start rate { out with inTransaction := true }) :=
    Batch.holds_start { out with inTransaction := true } hrate rfl
  have hall' : ([] ++ rows).foldlM insert out.tables = .ok t := by rw [List.nil_append, hall]
  rcases hstart.foldlM nested unmeasured measured hrate hall' with ⟨hk, b, hb, hholds⟩ | ⟨⟨k, -, hlt, hk⟩, herror⟩
  · rw [hb, ok_bind, if_pos (fun k hlt => hk k (Nat.zero_le k) (by rwa [List.nil_append]))]
    obtain ⟨written, hrows, hwritten⟩ := hholds.written
    rw [List.nil_append] at hrows
    rw [hrows] at hall
    obtain ⟨u, hu, hrest⟩ := foldlM_append_eq_ok hall
    obtain rfl := Except.ok.inj (hwritten.symm.trans hu)
    rw [Batch.finish, Session.executemany, hrest]
    rfl
  · rw [herror, error_bind, if_neg]
    intro hmeasured
    rw [List.nil_append] at hlt
    rw [hmeasured k hlt] at hk
    cases hk

end Loop

end Batches
