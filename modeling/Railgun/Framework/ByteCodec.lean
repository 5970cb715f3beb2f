import Railgun.Framework.BigEndian

/-!
# Exact byte codecs

A reader consumes a prefix of a byte string and returns what is left. It reads
a writer exactly (`Reads`) if it accepts precisely the written strings,
whatever follows them. Exactness composes: reads in sequence are reads of
concatenations (`run_bind_ok`), and a counted loop reads a list written
element by element (`Reads.times`).

What exactness gives is stated once: decoding to the end of the input is the
inverse of encoding (`Reads.decode_iff`), two written strings agree on a
common prefix only if they are the same (`Reads.prefix_free`), and no proper
extension or truncation of a written string is accepted (`Reads.extended`,
`Reads.truncated`).
-/

namespace ByteCodec

variable {ε α β : Type}

/-- A reader: its state is the bytes not yet consumed. -/
abbrev Reader (ε α : Type) := StateT Bytes (Except ε) α

/-- Reads `n` bytes, or fails with `eof` if fewer are left. -/
def take (eof : ε) (n : Nat) : Reader ε { b : Bytes // b.length = n } := fun bs =>
  if h : n ≤ bs.length then .ok (⟨bs.take n, List.length_take_of_le h⟩, bs.drop n)
  else .error eof

/-- Runs `p` `n` times. -/
def times (p : Reader ε α) : Nat → Reader ε (List α)
  | 0 => pure []
  | n + 1 => do
    let x ← p
    let xs ← times p n
    return x :: xs

/-- Runs `p` and fails with `trailing` unless it consumed every byte. -/
def decode (trailing : ε) (p : Reader ε α) (bs : Bytes) : Except ε α :=
  match p.run bs with
  | .ok (x, []) => .ok x
  | .ok (_, _ :: _) => .error trailing
  | .error e => .error e

/-- One written string after another; nothing if either is not written. -/
def cat (o₁ o₂ : Option Bytes) : Option Bytes := do
  let a ← o₁
  let b ← o₂
  return a ++ b

/-- `bs` is a written string, followed by `rest`. -/
def Starts (o : Option Bytes) (bs rest : Bytes) : Prop := ∃ b, o = some b ∧ bs = b ++ rest

/-- `p` accepts exactly what `put` writes, and leaves what follows it. -/
def Reads (p : Reader ε α) (put : α → Option Bytes) : Prop :=
  ∀ bs x rest, p.run bs = .ok (x, rest) ↔ Starts (put x) bs rest

/-- The elements of a list, written one after the other. -/
def putAll (put : α → Option Bytes) : List α → Option Bytes
  | [] => some []
  | x :: xs => cat (put x) (putAll put xs)

/-! ## Sequences -/

theorem run_bind_ok {p : Reader ε α} {f : α → Reader ε β} {bs rest : Bytes} {y : β} :
    (p >>= f).run bs = .ok (y, rest) ↔
      ∃ x r, p.run bs = .ok (x, r) ∧ (f x).run r = .ok (y, rest) := by
  rw [StateT.run_bind]
  cases h : p.run bs with
  | error e => simp [bind, Except.bind]
  | ok xr =>
    obtain ⟨x, r⟩ := xr
    simp [bind, Except.bind]

theorem run_pure_ok {bs rest : Bytes} {x y : α} :
    (pure x : Reader ε α).run bs = .ok (y, rest) ↔ y = x ∧ bs = rest := by
  rw [StateT.run_pure]
  simp [Except.pure, pure, eq_comm]

theorem run_throw_ok {bs rest : Bytes} {e : ε} {y : α} :
    (throw e : Reader ε α).run bs = .ok (y, rest) ↔ False := by
  simp [throw, throwThe, MonadExceptOf.throw, StateT.run, StateT.lift, bind, Except.bind]

theorem run_take_ok {eof : ε} {n : Nat} {bs rest : Bytes} {x : { b : Bytes // b.length = n }} :
    (take eof n).run bs = .ok (x, rest) ↔ bs = x.1 ++ rest := by
  obtain ⟨x, rfl⟩ := x
  simp only [take, StateT.run]
  split
  · simp only [Except.ok.injEq, Prod.mk.injEq, Subtype.mk.injEq]
    constructor
    · rintro ⟨hx, rfl⟩
      conv_lhs => rw [← List.take_append_drop x.length bs, hx]
    · rintro rfl
      exact ⟨List.take_left, List.drop_left⟩
  · rename_i h
    simp only [reduceCtorEq, false_iff]
    rintro rfl
    exact h (by rw [List.length_append]; omega)

@[simp] theorem starts_cat {o₁ o₂ : Option Bytes} {bs rest : Bytes} :
    Starts (cat o₁ o₂) bs rest ↔ ∃ r, Starts o₁ bs r ∧ Starts o₂ r rest := by
  cases o₁ <;> cases o₂ <;> simp [Starts, cat]

@[simp] theorem starts_some {b bs rest : Bytes} : Starts (some b) bs rest ↔ bs = b ++ rest := by
  simp [Starts]

/-- A word is read from the bytes that spell it. -/
theorem reads_word {eof : ε} {n w : Nat} (h : 256 ^ n = 2 ^ w) :
    Reads (do return BigEndian.fromBeBytes w (← take eof n).1)
      (fun x => some (BigEndian.beBytes n x)) := by
  intro bs x rest
  simp only [run_bind_ok, run_take_ok, run_pure_ok, starts_some]
  constructor
  · rintro ⟨b, _, rfl, rfl, rfl⟩
    rw [BigEndian.beBytes_fromBeBytes (Nat.le_of_eq h) b.2]
  · rintro rfl
    exact ⟨⟨_, BigEndian.length_beBytes n x⟩, rest, rfl,
      (BigEndian.fromBeBytes_beBytes (Nat.le_of_eq h.symm) x).symm, rfl⟩

/-- A loop reads a list written element by element, of the loop's length. -/
theorem Reads.times {p : Reader ε α} {put : α → Option Bytes} (h : Reads p put) :
    ∀ (n : Nat) (bs : Bytes) (xs : List α) (rest : Bytes),
      (times p n).run bs = .ok (xs, rest) ↔ xs.length = n ∧ Starts (putAll put xs) bs rest
  | 0, bs, xs, rest => by
    rw [ByteCodec.times, run_pure_ok]
    constructor
    · rintro ⟨rfl, rfl⟩
      exact ⟨rfl, starts_some.mpr rfl⟩
    · rintro ⟨hl, hs⟩
      obtain rfl := List.eq_nil_of_length_eq_zero hl
      exact ⟨rfl, starts_some.mp hs⟩
  | n + 1, bs, xs, rest => by
    simp only [ByteCodec.times, run_bind_ok, run_pure_ok, h _ _ _, h.times n]
    constructor
    · rintro ⟨x, r, hx, ys, _, ⟨rfl, hys⟩, rfl, rfl⟩
      exact ⟨rfl, starts_cat.mpr ⟨r, hx, hys⟩⟩
    · rintro ⟨hl, hs⟩
      cases xs with
      | nil => cases hl
      | cons x ys =>
        obtain ⟨r, hx, hys⟩ := starts_cat.mp hs
        exact ⟨x, r, hx, ys, rest, ⟨Nat.succ.inj hl, hys⟩, rfl, rfl⟩

/-! ## What exactness gives -/

section
variable {p : Reader ε α} {put : α → Option Bytes} (h : Reads p put)
include h

/-- Written strings are prefix-free: a common extension determines the value. -/
theorem Reads.prefix_free {x y : α} {b c r s : Bytes} (hx : put x = some b) (hy : put y = some c)
    (he : b ++ r = c ++ s) : x = y ∧ r = s := by
  have h₁ := (h _ x r).mpr ⟨b, hx, rfl⟩
  have h₂ := (h _ y s).mpr ⟨c, hy, he⟩
  rw [h₁] at h₂
  simpa using h₂

/-- Distinct values are written differently. -/
theorem Reads.put_inj {x y : α} {b : Bytes} (hx : put x = some b) (hy : put y = some b) : x = y :=
  (h.prefix_free hx hy (r := []) (s := []) rfl).1

/-- Decoding inverts encoding, in both directions. -/
theorem Reads.decode_iff {trailing : ε} {bs : Bytes} {x : α} :
    decode trailing p bs = .ok x ↔ put x = some bs := by
  simp only [decode]
  constructor
  · intro hd
    split at hd <;> cases hd
    rename_i he
    obtain ⟨b, hb, rfl⟩ := (h _ _ _).mp he
    rwa [List.append_nil]
  · intro hx
    rw [(h bs x []).mpr ⟨bs, hx, (List.append_nil bs).symm⟩]

/-- Bytes after a written string are rejected. -/
theorem Reads.extended {trailing : ε} {x : α} {b : Bytes} (hx : put x = some b) {c : Byte}
    {cs : Bytes} : decode trailing p (b ++ c :: cs) = .error trailing := by
  rw [decode, (h _ x (c :: cs)).mpr ⟨b, hx, rfl⟩]

/-- A written string cut short is rejected. -/
theorem Reads.truncated {trailing : ε} {x y : α} {b : Bytes} {c : Byte} {cs : Bytes}
    (hx : put x = some (b ++ c :: cs)) : decode trailing p b ≠ .ok y := by
  intro hd
  have hy := h.decode_iff.mp hd
  have := (h.prefix_free (r := c :: cs) (s := []) hy hx (by rw [List.append_nil])).2
  cases this

end

end ByteCodec
