import Mathlib.Data.List.Basic
import Chives.Library.ExceptRun

set_option autoImplicit false

/-!
# Prefix codecs

A *prefix codec* is an encoder into words over an alphabet together with a decoder that reads
one value from the front of a word and returns what is left. It is lawful on a domain of values
when decoding an encoding followed by anything gives the value and that anything back, and when
every successful decoding read exactly the encoding of the value it returns. Lawful codecs
compose: this file has the rules for sequences of codecs and for counted repetition.

## Main definitions

* `PrefixCodec.Lawful` — the two laws.
* `PrefixCodec.decEach`, `PrefixCodec.encEach` — one codec after the other.
* `PrefixCodec.decMany`, `PrefixCodec.encMany` — one codec, a given number of times.
* `PrefixCodec.decWhole` — decoding a word that has to be consumed entirely.

## Main results

* `PrefixCodec.Lawful.cons`, `PrefixCodec.Lawful.many` — sequences and repetitions of lawful
  codecs are lawful.
* `PrefixCodec.Lawful.sized` — a value after its own size.
* `PrefixCodec.Lawful.decWhole_encode`, `PrefixCodec.Lawful.encode_decWhole` — on whole words a
  lawful codec is a bijection between its domain and the words it accepts.
-/

namespace PrefixCodec

open ExceptRun

variable {α β γ ν ε : Type}

/-- An encoder of `α` into words over `β`, failing with an `ε`. -/
abbrev Encoder (ε α β : Type) := α → Except ε (List β)

/-- A decoder reading an `α` from the front of a word over `β`. -/
abbrev Decoder (ε α β : Type) := List β → Except ε (α × List β)

/-- The two laws of a prefix codec on the values satisfying `dom`: decoding inverts encoding in
front of any remainder, and a decoded value lies in the domain and re-encodes to exactly the
letters that were read. -/
structure Lawful (dom : α → Prop) (enc : Encoder ε α β) (dec : Decoder ε α β) : Prop where
  dec_enc : ∀ a, dom a → ∃ w, enc a = .ok w ∧ ∀ rest, dec (w ++ rest) = .ok (a, rest)
  enc_dec : ∀ {s a rest}, dec s = .ok (a, rest) → dom a ∧ ∃ w, enc a = .ok w ∧ s = w ++ rest

/-! ## Running decoders in sequence -/

/-- Read one value with each decoder of the list, in order. -/
def decEach : List (Decoder ε α β) → Decoder ε (List α) β
  | [], s => .ok ([], s)
  | dec :: decs, s => do
    let (a, s') ← dec s
    let (as, s'') ← decEach decs s'
    return (a :: as, s'')

/-- Write the values with the encoders of the list, paired in order as `zip` pairs them. -/
def encEach : List (Encoder ε α β) → Encoder ε (List α) β
  | enc :: encs, a :: as => do
    let w ← enc a
    let ws ← encEach encs as
    return w ++ ws
  | _, _ => .ok []

/-- Read `n` values with one decoder. -/
def decMany (dec : Decoder ε α β) : ℕ → Decoder ε (List α) β
  | 0, s => .ok ([], s)
  | n + 1, s => do
    let (a, s') ← dec s
    let (as, s'') ← decMany dec n s'
    return (a :: as, s'')

/-- Write every value of the list with one encoder. -/
def encMany (enc : Encoder ε α β) : Encoder ε (List α) β
  | [] => .ok []
  | a :: as => do
    let w ← enc a
    let ws ← encMany enc as
    return w ++ ws

/-- Decode a word that has to be used up; `trailing` is the failure on left-over letters. -/
def decWhole (dec : Decoder ε α β) (trailing : ε) (s : List β) : Except ε α := do
  let (a, rest) ← dec s
  if rest.isEmpty then return a else throw trailing

/-! ## Composition rules -/

namespace Lawful

variable {dom : α → Prop} {enc : Encoder ε α β} {dec : Decoder ε α β}
  {doms : List α → Prop} {encs : List (Encoder ε α β)} {decs : List (Decoder ε α β)}

lemma congr_dom {d : α → Prop} (h : Lawful dom enc dec) (hd : ∀ a, dom a ↔ d a) :
    Lawful d enc dec := by
  have : dom = d := funext fun a => propext (hd a)
  exact this ▸ h

/-- A lawful codec followed by a conversion of its values that is invertible between the two
domains; both directions of the conversion may fail outside them. -/
lemma convert {d : γ → Prop} {g : γ → Except ε α} {f : α → Except ε γ}
    (h : Lawful dom enc dec)
    (hg : ∀ c, d c → ∃ a, g c = .ok a ∧ dom a ∧ f a = .ok c)
    (hf : ∀ a c, dom a → f a = .ok c → d c ∧ g c = .ok a) :
    Lawful d (fun c => g c >>= enc) (fun s => do
      let (a, rest) ← dec s
      let c ← f a
      return (c, rest)) where
  dec_enc c hc := by
    obtain ⟨a, hga, ha, hfa⟩ := hg c hc
    obtain ⟨w, hw, hdec⟩ := h.dec_enc a ha
    exact ⟨w, by simp [hga, hw], fun rest => by simp [hdec, hfa]⟩
  enc_dec := by
    intro s c rest hok
    simp only [bind_eq_ok, Prod.exists, pure_eq, Except.ok.injEq, Prod.mk.injEq] at hok
    obtain ⟨a, r, hd, c', hfa, rfl, rfl⟩ := hok
    obtain ⟨ha, w, hw, rfl⟩ := h.enc_dec hd
    obtain ⟨hc, hga⟩ := hf a c' ha hfa
    exact ⟨hc, w, by simp [hga, hw], rfl⟩

/-- A lawful codec under an injection `wrap` of its values into another type. -/
lemma wrap {e : Encoder ε γ β} (h : Lawful dom enc dec) (wrap : α → γ)
    (henc : ∀ a, dom a → e (wrap a) = enc a) :
    Lawful (fun c => ∃ a, c = wrap a ∧ dom a) e (fun s => do
      let (a, rest) ← dec s
      return (wrap a, rest)) where
  dec_enc := by
    rintro _ ⟨a, rfl, ha⟩
    obtain ⟨w, hw, hdec⟩ := h.dec_enc a ha
    exact ⟨w, by rw [henc a ha, hw], fun rest => by simp [hdec]⟩
  enc_dec := by
    intro s c rest hok
    simp only [bind_eq_ok, Prod.exists, pure_eq, Except.ok.injEq, Prod.mk.injEq] at hok
    obtain ⟨a, r, hd, rfl, rfl⟩ := hok
    obtain ⟨ha, w, hw, rfl⟩ := h.enc_dec hd
    exact ⟨⟨a, rfl, ha⟩, w, by rw [henc a ha, hw], rfl⟩

/-- A value written after its own size, when the codec of the value depends on the size. -/
lemma sized {domN : ν → Prop} {encN : Encoder ε ν β} {decN : Decoder ε ν β}
    {dom : ν → α → Prop} {dec : ν → Decoder ε α β} (size : α → ν)
    (hN : Lawful domN encN decN) (h : ∀ n, domN n → Lawful (dom n) enc (dec n))
    (hsize : ∀ n a, dom n a → size a = n) :
    Lawful (fun a => domN (size a) ∧ dom (size a) a)
      (fun a => do
        let w ← encN (size a)
        let ws ← enc a
        return w ++ ws)
      (fun s => do
        let (n, rest) ← decN s
        dec n rest) where
  dec_enc := by
    rintro a ⟨hn, ha⟩
    obtain ⟨w, hw, hdecN⟩ := hN.dec_enc _ hn
    obtain ⟨ws, hws, hdec⟩ := (h _ hn).dec_enc a ha
    refine ⟨w ++ ws, by simp [hw, hws], fun rest => ?_⟩
    rw [List.append_assoc]
    simp [hdecN, hdec]
  enc_dec := by
    intro s a rest hok
    simp only [bind_eq_ok, Prod.exists] at hok
    obtain ⟨n, r, hd, hdec⟩ := hok
    obtain ⟨hn, w, hw, rfl⟩ := hN.enc_dec hd
    obtain ⟨ha, ws, hws, rfl⟩ := (h n hn).enc_dec hdec
    obtain rfl := hsize n a ha
    exact ⟨⟨hn, ha⟩, w ++ ws, by simp [hw, hws], (List.append_assoc _ _ _).symm⟩

lemma nil : Lawful (ε := ε) (β := β) (fun l : List α => l = []) (encEach []) (decEach []) where
  dec_enc := by
    rintro _ rfl
    exact ⟨[], rfl, fun _ => rfl⟩
  enc_dec := by
    intro s a rest h
    simp only [decEach, Except.ok.injEq, Prod.mk.injEq] at h
    obtain ⟨rfl, rfl⟩ := h
    exact ⟨rfl, [], rfl, rfl⟩

section

variable (h : Lawful dom enc dec)

include h

lemma cons (hs : Lawful doms (encEach encs) (decEach decs)) :
    Lawful (fun l => ∃ a as, l = a :: as ∧ dom a ∧ doms as) (encEach (enc :: encs))
      (decEach (dec :: decs)) where
  dec_enc := by
    rintro _ ⟨a, as, rfl, ha, has⟩
    obtain ⟨w, hw, hdec⟩ := h.dec_enc a ha
    obtain ⟨ws, hws, hdecs⟩ := hs.dec_enc as has
    refine ⟨w ++ ws, by simp [encEach, hw, hws], fun rest => ?_⟩
    rw [List.append_assoc]
    simp [decEach, hdec, hdecs]
  enc_dec := by
    intro s l rest hok
    simp only [decEach, bind_eq_ok, Prod.exists, pure_eq, Except.ok.injEq, Prod.mk.injEq] at hok
    obtain ⟨a, s', hd, as, s'', hds, rfl, rfl⟩ := hok
    obtain ⟨ha, w, hw, rfl⟩ := h.enc_dec hd
    obtain ⟨has, ws, hws, rfl⟩ := hs.enc_dec hds
    refine ⟨⟨a, as, rfl, ha, has⟩, w ++ ws, ?_, (List.append_assoc _ _ _).symm⟩
    simp [encEach, hw, hws]

/-- Counted repetition of a lawful codec.

**Proof sketch.** Induction on the count; a step is one codec in front of the shorter
repetition, as for sequences. -/
lemma many (n : ℕ) : Lawful (fun l => l.length = n ∧ ∀ a ∈ l, dom a) (encMany enc) (decMany dec n) := by
  induction n with
  | zero =>
    refine ⟨fun l hl => ?_, fun {s a rest} hok => ?_⟩
    · obtain rfl := List.length_eq_zero_iff.mp hl.1
      exact ⟨[], rfl, fun _ => rfl⟩
    · simp only [decMany, Except.ok.injEq, Prod.mk.injEq] at hok
      obtain ⟨rfl, rfl⟩ := hok
      exact ⟨by simp, [], rfl, rfl⟩
  | succ n ih =>
    refine ⟨fun l hl => ?_, fun {s a rest} hok => ?_⟩
    · obtain ⟨a, as, rfl⟩ := List.exists_cons_of_length_eq_add_one hl.1
      obtain ⟨w, hw, hdec⟩ := h.dec_enc a (hl.2 a (by simp))
      obtain ⟨ws, hws, hdecs⟩ := ih.dec_enc as
        ⟨by simpa using hl.1, fun b hb => hl.2 b (List.mem_cons_of_mem a hb)⟩
      refine ⟨w ++ ws, by simp [encMany, hw, hws], fun rest => ?_⟩
      rw [List.append_assoc]
      simp [decMany, hdec, hdecs]
    · simp only [decMany, bind_eq_ok, Prod.exists, pure_eq, Except.ok.injEq,
        Prod.mk.injEq] at hok
      obtain ⟨a, s', hd, as, s'', hds, rfl, rfl⟩ := hok
      obtain ⟨ha, w, hw, rfl⟩ := h.enc_dec hd
      obtain ⟨⟨hlen, has⟩, ws, hws, rfl⟩ := ih.enc_dec hds
      refine ⟨⟨by simp [hlen], ?_⟩, w ++ ws, ?_, (List.append_assoc _ _ _).symm⟩
      · intro b hb
        rcases List.mem_cons.mp hb with rfl | hb
        · exact ha
        · exact has b hb
      · simp [encMany, hw, hws]

/-! ## Whole words -/

lemma decWhole_encode (trailing : ε) {a : α} (ha : dom a) : (enc a >>= decWhole dec trailing) = .ok a := by
  obtain ⟨w, hw, hdec⟩ := h.dec_enc a ha
  have hnil := hdec []
  rw [List.append_nil] at hnil
  simp [hw, decWhole, hnil]

lemma encode_decWhole {trailing : ε} {s : List β} {a : α} (hs : decWhole dec trailing s = .ok a) :
    dom a ∧ enc a = .ok s := by
  simp only [decWhole, bind_eq_ok, Prod.exists] at hs
  obtain ⟨b, rest, hd, hif⟩ := hs
  split at hif
  · rename_i hempty
    obtain rfl : b = a := by simpa  using hif
    obtain rfl := List.isEmpty_iff.mp hempty
    obtain ⟨ha, w, hw, rfl⟩ := h.enc_dec hd
    exact ⟨ha, by simpa using hw⟩
  · simp at hif

end

end Lawful

end PrefixCodec
