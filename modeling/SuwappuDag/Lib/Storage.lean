/-
  TABLES KEPT AS BYTES.

  A record of bytes that is only ever written by an encoder HOLDS a table, also when the decoder no
  longer accepts it (a count that has been truncated).  `Holds` names that table: the decoder, if it
  returns anything, returns it (`Holds.eq_of_decode`), and no record holds two (`Holds.unique`).
-/
import SuwappuDag.Lib.Codec

namespace SuwappuDag.Codec

open Std (ExtTreeMap)

/-! ## Bytes determine the entries -/

/-- Entries that are read back one by one are determined by the bytes of all of them. -/
theorem flatMap_injective {α : Type} {get : Reader α} {put : α → List UInt8}
    (hne : ∀ e, put e ≠ []) : ∀ {l l' : List α}, (∀ e ∈ l, Reads get (put e) e) →
      (∀ e ∈ l', Reads get (put e) e) → l.flatMap put = l'.flatMap put → l = l'
  | [], [], _, _, _ => rfl
  | [], e :: l', _, _, h => by
    rw [List.flatMap_cons, List.flatMap_nil, eq_comm, List.append_eq_nil_iff] at h
    exact absurd h.1 (hne e)
  | e :: l, [], _, _, h => by
    rw [List.flatMap_cons, List.flatMap_nil, List.append_eq_nil_iff] at h
    exact absurd h.1 (hne e)
  | e :: l, e' :: l', hl, hl', h => by
    rw [List.forall_mem_cons] at hl hl'
    rw [List.flatMap_cons, List.flatMap_cons] at h
    -- reading the common bytes gives the first entry of either list
    have hread := (hl.1 (l.flatMap put)).symm.trans (h ▸ hl'.1 (l'.flatMap put))
    obtain ⟨he, hrest⟩ := Prod.mk.inj hread
    cases he
    rw [flatMap_injective hne hl.2 hl'.2 hrest]

theorem toList_injective {κ ν : Type} [Ord κ] [Std.TransOrd κ] [Std.LawfulEqOrd κ]
    {m m' : ExtTreeMap κ ν} (h : m.toList = m'.toList) : m = m' := by
  rw [← insertAll_toList m, h, insertAll_toList]

theorem Format.encode_ne_nil {κ ν : Type} (f : Format κ ν) (l : List (κ × ν)) : f.encode l ≠ [] := by
  intro h
  have hlen := congrArg List.length h
  simp [Format.encode] at hlen

theorem Format.FaithfulOn.encode_injective {κ ν : Type} {f : Format κ ν} {P : κ × ν → Prop}
    (hf : f.FaithfulOn P) (hwidth : 0 < f.width) {l l' : List (κ × ν)} (hl : ∀ e ∈ l, P e)
    (hl' : ∀ e ∈ l', P e) (h : f.encode l = f.encode l') : l = l' := by
  have hne : ∀ e, f.put e ≠ [] := by
    intro e he
    have hlen := hf.length_put e
    rw [he] at hlen
    exact absurd hlen (Nat.ne_of_lt hwidth)
  have hbody : l.flatMap f.put = l'.flatMap f.put := by
    have h := (List.append_inj h rfl).2
    exact (List.append_inj h (by rw [Words.length_beBytes, Words.length_beBytes])).2
  exact flatMap_injective hne (fun e he => hf.reads e (hl e he)) (fun e he => hf.reads e (hl' e he))
    hbody

/-! ## Storage -/

/-- An encoder and a decoder of tables, with what ties them together. -/
structure Storage (μ : Type) where
  encode : μ → List UInt8
  decode : List UInt8 → Except String μ
  /-- The tables that are ever written. -/
  Valid : μ → Prop
  empty : μ
  decode_nil : decode [] = .ok empty
  encode_ne_nil : ∀ m, encode m ≠ []
  encode_inj : ∀ {m m'}, Valid m → Valid m' → encode m = encode m' → m = m'
  decode_encode : ∀ {m m'}, Valid m → decode (encode m) = .ok m' → m' = m

namespace Storage

variable {μ : Type} {st : Storage μ} {bytes : List UInt8} {m m' : μ}

/-- The bytes are those of the table; no bytes at all are the empty one. -/
def Holds (st : Storage μ) (bytes : List UInt8) (m : μ) : Prop :=
  (bytes = [] ∧ m = st.empty) ∨ (bytes = st.encode m ∧ st.Valid m)

theorem holds_nil (st : Storage μ) : st.Holds [] st.empty := Or.inl ⟨rfl, rfl⟩

/-- What can be read is what is held. -/
theorem Holds.eq_of_decode (h : st.Holds bytes m) (hdec : st.decode bytes = .ok m') : m' = m := by
  rcases h with ⟨rfl, rfl⟩ | ⟨rfl, hvalid⟩
  · rw [st.decode_nil] at hdec
    exact (Except.ok.inj hdec).symm
  · exact st.decode_encode hvalid hdec

theorem Holds.unique (h : st.Holds bytes m) (h' : st.Holds bytes m') : m' = m := by
  rcases h with ⟨rfl, rfl⟩ | ⟨rfl, hvalid⟩
  · rcases h' with ⟨-, rfl⟩ | ⟨hnil, -⟩
    · rfl
    · exact absurd hnil.symm (st.encode_ne_nil m')
  · rcases h' with ⟨hnil, -⟩ | ⟨heq, hvalid'⟩
    · exact absurd hnil (st.encode_ne_nil m)
    · exact (st.encode_inj hvalid hvalid' heq).symm

end Storage

/-- A map of fixed-width entries as storage. -/
def Format.storage {κ ν : Type} [Ord κ] [Std.TransOrd κ] [Std.LawfulEqOrd κ] (f : Format κ ν)
    (hf : f.Faithful) (hwidth : 0 < f.width) : Storage (ExtTreeMap κ ν) where
  encode m := f.encode m.toList
  decode := f.decode
  Valid _ := True
  empty := ∅
  decode_nil := rfl
  encode_ne_nil m := f.encode_ne_nil _
  encode_inj _ _ h := toList_injective
    (hf.on.encode_injective hwidth (fun _ _ => trivial) (fun _ _ => trivial) h)
  decode_encode _ h := hf.decode_encode_toList hwidth h

end SuwappuDag.Codec
