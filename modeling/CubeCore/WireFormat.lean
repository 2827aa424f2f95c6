import CubeCore.Checked
import Mathlib.Algebra.Group.Nat.Defs
import Mathlib.Data.List.Induction

namespace CubeCore.WireFormat

open Checked List Nat StateT

/-- The low `n` bytes of a number, the most significant first. -/
def putBE : Nat → Nat → List UInt8
  | 0, _ => []
  | n + 1, v => putBE n (v / 256) ++ [UInt8.ofNat v]

def getBE (bytes : List UInt8) : Nat :=
  bytes.foldl (fun v byte => v * 256 + byte.toNat) 0

variable (n : Nat)

@[simp] theorem length_putBE (v : Nat) : (putBE n v).length = n := by
  induction n generalizing v with
  | zero => rfl
  | succ n ih => simp [putBE, ih]

variable (bytes : List UInt8)

theorem getBE_append_byte (byte : UInt8) :
    getBE (bytes ++ [byte]) = getBE bytes * 256 + byte.toNat := by
  simp [getBE]

theorem getBE_putBE (v : Nat) : getBE (putBE n v) = v % 256 ^ n := by
  induction n generalizing v with
  | zero => simp [putBE, getBE, mod_one]
  | succ n ih =>
    have hbyte : (UInt8.ofNat v).toNat = v % 256 := by simp
    rw [putBE, getBE_append_byte, ih, pow_succ', mod_mul]
    omega

theorem getBE_lt : getBE bytes < 256 ^ bytes.length := by
  induction bytes using reverseRecOn with
  | nil => simp [getBE]
  | append_singleton bytes byte =>
    have hbyte := byte.toNat_lt
    rw [getBE_append_byte, length_append, length_singleton]
    omega

theorem putBE_getBE : putBE bytes.length (getBE bytes) = bytes := by
  induction bytes using reverseRecOn with
  | nil => rfl
  | append_singleton bytes byte ih =>
    have hbyte := byte.toNat_lt
    have hhigh : (getBE bytes * 256 + byte.toNat) / 256 = getBE bytes := by omega
    have hlow : UInt8.ofNat (getBE bytes * 256 + byte.toNat) = byte := by
      apply UInt8.toNat_inj.mp
      simp only [UInt8.toNat_ofNat']
      omega
    rw [length_append, length_singleton, putBE, getBE_append_byte, hhigh, ih, hlow]

abbrev Reader (ε α : Type) := StateT (List UInt8) (Except ε) α

variable {ε α β γ : Type}

/-- The reader takes valid values off the front of what `write` writes, and nothing
else. -/
structure Reads (r : Reader ε α) (write : α → List UInt8) (Valid : α → Prop) : Prop where
  back : ∀ a rest, Valid a → r.run (write a ++ rest) = .ok (a, rest)
  exact : ∀ bytes a rest, r.run bytes = .ok (a, rest) → Valid a ∧ bytes = write a ++ rest

variable {r : Reader ε α} {write : α → List UInt8} {Valid : α → Prop}

theorem Reads.congr {Valid' : α → Prop} {write' : α → List UInt8} (h : Reads r write Valid)
    (hvalid : ∀ a, Valid' a ↔ Valid a) (hwrite : ∀ a, Valid a → write' a = write a) :
    Reads r write' Valid' where
  back a rest ha := by
    rw [hwrite a ((hvalid a).mp ha)]
    exact h.back a rest ((hvalid a).mp ha)
  exact bytes a rest hread := by
    obtain ⟨ha, hbytes⟩ := h.exact bytes a rest hread
    exact ⟨(hvalid a).mpr ha, (hwrite a ha).symm ▸ hbytes⟩

theorem Reads.pure (a : α) : Reads (pure a : Reader ε α) (fun _ => []) (· = a) where
  back := by
    rintro _ rest rfl
    rfl
  exact bytes b rest h := by
    obtain ⟨rfl, rfl⟩ := Prod.mk.inj (Except.ok.inj h)
    exact ⟨rfl, rfl⟩

/-- A value whose part `part` was read first, and the rest of it by a reader that knows
the part. -/
theorem Reads.bind {f : α → Reader ε γ} {write' : γ → List UInt8} {Valid' : α → γ → Prop}
    (part : γ → α) (h : Reads r write Valid) (hf : ∀ a, Valid a → Reads (f a) write' (Valid' a))
    (hpart : ∀ a c, Valid' a c → part c = a) :
    Reads (r >>= f) (fun c => write (part c) ++ write' c)
      fun c => Valid (part c) ∧ Valid' (part c) c where
  back c rest hc := by
    rw [run_bind, append_assoc, h.back _ _ hc.1]
    exact (hf _ hc.1).back c rest hc.2
  exact bytes c rest hread := by
    rw [run_bind, bind_eq_ok] at hread
    obtain ⟨⟨a, middle⟩, ha, hc⟩ := hread
    obtain ⟨hvalid, rfl⟩ := h.exact _ _ _ ha
    obtain ⟨hvalid', rfl⟩ := (hf a hvalid).exact _ _ _ hc
    obtain rfl := hpart a c hvalid'
    exact ⟨⟨hvalid, hvalid'⟩, (append_assoc _ _ _).symm⟩

theorem Reads.field {f : α → Reader ε γ} {write' : γ → List UInt8} {Valid' : α → γ → Prop}
    (part : γ → α) (h : Reads r write fun _ => True) (hf : ∀ a, Reads (f a) write' (Valid' a))
    (hpart : ∀ a c, Valid' a c → part c = a) :
    Reads (r >>= f) (fun c => write (part c) ++ write' c) fun c => Valid' (part c) c :=
  (h.bind part (fun a _ => hf a) hpart).congr (fun _ => by rw [true_and]) fun _ _ => rfl

theorem Reads.eq_of_extends {a b : α} (h : Reads r write Valid) (ha : Valid a) (hb : Valid b)
    (hpre : write a <+: write b) : write a = write b := by
  obtain ⟨rest, hrest⟩ := hpre
  -- `write b` is read to its end, and as `a` to the end of `write a`
  have hall := h.back b [] hb
  rw [append_nil, ← hrest, h.back a rest ha] at hall
  obtain rfl := (Prod.mk.inj (Except.ok.inj hall)).2
  simpa using hrest

theorem Reads.check [Decidable c] {e : ε} (h : Reads r write Valid) :
    Reads (do rejectIf c e; r : Reader ε α) write fun a => ¬ c ∧ Valid a where
  back a rest ha := by
    have hpass : rejectIf c e = .ok () := rejectIf_eq_ok.mpr ha.1
    rw [hpass]
    exact h.back a rest ha.2
  exact bytes a rest hread := by
    by_cases hc : c
    · have hfail : rejectIf c e = .error e := rejectIf_eq_error.mpr ⟨hc, rfl⟩
      rw [hfail] at hread
      cases hread
    have hpass : rejectIf c e = .ok () := rejectIf_eq_ok.mpr hc
    rw [hpass] at hread
    obtain ⟨hvalid, hbytes⟩ := h.exact bytes a rest hread
    exact ⟨⟨hc, hvalid⟩, hbytes⟩

def readMany (item : Reader ε α) : Nat → Reader ε (List α)
  | 0 => Pure.pure []
  | n + 1 => do
      let first ← item
      let others ← readMany item n
      return first :: others

theorem Reads.many (h : Reads r write Valid) (n : Nat) :
    Reads (readMany r n) (fun items => items.flatMap write)
      fun items => items.length = n ∧ ∀ a ∈ items, Valid a := by
  induction n with
  | zero =>
    refine (Reads.pure []).congr (fun items => ?_) ?_
    · simp +contextual [length_eq_zero_iff]
    · rintro _ rfl
      rfl
  | succ n ih =>
    constructor
    · rintro items rest ⟨hlength, hvalid⟩
      obtain ⟨first, others, rfl⟩ := exists_cons_of_length_eq_add_one hlength
      have hothers := ih.back others rest
        ⟨succ.inj hlength, fun a ha => hvalid a (mem_cons_of_mem first ha)⟩
      rw [readMany, run_bind, flatMap_cons, append_assoc,
        h.back first _ (hvalid first mem_cons_self), ok_bind, run_bind, hothers]
      rfl
    intro bytes items rest hread
    rw [readMany, run_bind, bind_eq_ok] at hread
    obtain ⟨⟨first, middle⟩, hfirst, hread⟩ := hread
    rw [run_bind, bind_eq_ok] at hread
    obtain ⟨⟨others, _⟩, hothers, hread⟩ := hread
    obtain ⟨rfl, rfl⟩ := Prod.mk.inj (Except.ok.inj hread)
    obtain ⟨hvalid, rfl⟩ := h.exact _ _ _ hfirst
    obtain ⟨⟨rfl, hall⟩, rfl⟩ := ih.exact _ _ _ hothers
    refine ⟨⟨rfl, ?_⟩, by simp⟩
    rintro a (_ | ⟨_, ha⟩)
    · exact hvalid
    · exact hall a ha

/-- Take `n` bytes off the front. -/
def readFull (n : Nat) (short : ε) : Reader ε (List UInt8) := fun bytes =>
  if bytes.length < n then .error short else .ok (bytes.take n, bytes.drop n)

variable (short : ε)

theorem reads_readFull : Reads (readFull n short) id fun bytes => bytes.length = n where
  back := by
    rintro a rest rfl
    simp [readFull, run]
  exact bytes a rest hread := by
    simp only [run, readFull] at hread
    split_ifs at hread with hlength
    obtain ⟨rfl, rfl⟩ := Prod.mk.inj (Except.ok.inj hread)
    refine ⟨?_, (take_append_drop n bytes).symm⟩
    rw [length_take]
    omega

/-- Read a big-endian integer of `n` bytes. -/
def readBE (n : Nat) (short : ε) : Reader ε Nat := do
  let bytes ← readFull n short
  return getBE bytes

theorem reads_readBE : Reads (readBE n short) (putBE n) (· < 256 ^ n) := by
  constructor
  · intro v rest hv
    have hread := (reads_readFull n short).back (putBE n v) rest (length_putBE n v)
    rw [readBE, run_bind]
    simp only [id] at hread
    rw [hread, ok_bind, getBE_putBE, mod_eq_of_lt hv]
    rfl
  intro bytes v rest hread
  rw [readBE, run_bind, bind_eq_ok] at hread
  obtain ⟨⟨front, _⟩, hfront, hread⟩ := hread
  obtain ⟨rfl, rfl⟩ := Prod.mk.inj (Except.ok.inj hread)
  obtain ⟨rfl, rfl⟩ := (reads_readFull n short).exact _ _ _ hfront
  exact ⟨getBE_lt front, by rw [putBE_getBE]; rfl⟩

theorem Reads.map {f : α → β} {g : β → α} (h : Reads r write Valid)
    (hleft : ∀ b, Valid (g b) ∧ f (g b) = b) (hright : ∀ a, Valid a → g (f a) = a) :
    Reads (f <$> r) (fun b => write (g b)) fun _ => True where
  back b rest _ := by
    rw [run_map, h.back _ _ (hleft b).1]
    exact congrArg (fun b => Except.ok (b, rest)) (hleft b).2
  exact bytes b rest hread := by
    rw [run_map] at hread
    cases hr : r.run bytes with
    | error => simp [hr] at hread
    | ok =>
      rw [hr] at hread
      obtain ⟨rfl, rfl⟩ := Prod.mk.inj (Except.ok.inj hread)
      obtain ⟨hvalid, hbytes⟩ := h.exact _ _ _ hr
      exact ⟨trivial, by rw [hright _ hvalid]; exact hbytes⟩

def readUint8 (short : ε) : Reader ε UInt8 := UInt8.ofNat <$> readBE 1 short

def readUint16 (short : ε) : Reader ε UInt16 := UInt16.ofNat <$> readBE 2 short

def readUint32 (short : ε) : Reader ε UInt32 := UInt32.ofNat <$> readBE 4 short

def readUint64 (short : ε) : Reader ε UInt64 := UInt64.ofNat <$> readBE 8 short

theorem reads_readUint8 : Reads (readUint8 short) (fun v => putBE 1 v.toNat) fun _ => True :=
  (reads_readBE 1 short).map (fun v => ⟨v.toNat_lt, UInt8.ofNat_toNat⟩)
    fun _ h => UInt8.toNat_ofNat_of_lt' h

theorem reads_readUint16 : Reads (readUint16 short) (fun v => putBE 2 v.toNat) fun _ => True :=
  (reads_readBE 2 short).map (fun v => ⟨v.toNat_lt, UInt16.ofNat_toNat⟩)
    fun _ h => UInt16.toNat_ofNat_of_lt' h

theorem reads_readUint32 : Reads (readUint32 short) (fun v => putBE 4 v.toNat) fun _ => True :=
  (reads_readBE 4 short).map (fun v => ⟨v.toNat_lt, UInt32.ofNat_toNat⟩)
    fun _ h => UInt32.toNat_ofNat_of_lt' h

theorem reads_readUint64 : Reads (readUint64 short) (fun v => putBE 8 v.toNat) fun _ => True :=
  (reads_readBE 8 short).map (fun v => ⟨v.toNat_lt, UInt64.ofNat_toNat⟩)
    fun _ h => UInt64.toNat_ofNat_of_lt' h

end CubeCore.WireFormat
