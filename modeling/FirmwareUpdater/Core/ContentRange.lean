import FirmwareUpdater.Core.ResponseHead

/-!
# Where a response's body starts in the image

An `Intervalo` is what a Content-Range field says of one range of bytes. The body of a
response with status 200 is the image from its first byte on, whatever other fields
say; with status 206 and one range, it starts where the range does
(`Cabeca.PrimeiroByte`).
-/

namespace FirmwareUpdater

/-- A name has neither digits nor an equals sign if the expected one has none. -/
theorem ehNome_limpo {nome : List UInt8} {esperado : String} (h : ehNome nome esperado)
    (hclean : ∀ b ∈ (ascii esperado).map tolower, b ≠ 61 ∧ isdigit b = false) :
    ∀ b ∈ nome, b ≠ 61 ∧ isdigit b = false := by
  intro b hb
  have hlower : tolower b ∈ (ascii esperado).map tolower := by
    rw [← of_decide_eq_true h]
    exact List.mem_map_of_mem hb
  obtain ⟨hequals, hdigit⟩ := hclean _ hlower
  -- Neither of them is a capital.
  have hkept : b ≤ 61 → tolower b = b := by
    intro hle
    rw [tolower, if_neg]
    rw [UInt8.le_iff_toNat_le] at hle
    rintro ⟨hcapital, -⟩
    rw [UInt8.le_iff_toNat_le] at hcapital
    exact absurd (hcapital.trans hle) (by decide : ¬(65 : UInt8).toNat ≤ (61 : UInt8).toNat)
  constructor
  · rintro rfl
    exact hequals (by decide)
  · refine Bool.eq_false_of_not_eq_true fun hb => ?_
    have hrange := hb
    simp only [isdigit, Bool.and_eq_true, decide_eq_true_eq] at hrange
    rw [hkept (UInt8.le_trans hrange.2 (by decide)), hb] at hdigit
    cases hdigit

/-- A range of bytes, as a Content-Range field writes it: the unit, the first and the last position,
and the size of the whole or `*`. -/
structure Intervalo where
  unidade : List UInt8
  primeiro : List UInt8
  ultimo : List UInt8
  total : List UInt8
  unidade_bytes : ehNome unidade "bytes"
  primeiro_digitos : primeiro ≠ [] ∧ ∀ b ∈ primeiro, isdigit b
  ultimo_digitos : ultimo ≠ [] ∧ ∀ b ∈ ultimo, isdigit b
  total_dito : total = ascii "*" ∨ total ≠ [] ∧ ∀ b ∈ total, isdigit b

namespace Intervalo

/-- How it is written. -/
def bytes (intervalo : Intervalo) : List UInt8 :=
  intervalo.unidade ++ [32] ++
    (intervalo.primeiro ++ 45 :: (intervalo.ultimo ++ 47 :: intervalo.total))

/-- Its first position. -/
def inicio (intervalo : Intervalo) : Nat := decimal intervalo.primeiro

/-- The unit has neither digits nor an equals sign. -/
theorem unidade_limpa (intervalo : Intervalo) :
    ∀ b ∈ intervalo.unidade, b ≠ 61 ∧ isdigit b = false :=
  ehNome_limpo intervalo.unidade_bytes (by decide +kernel)

/-- What stands behind the first position has no equals sign. -/
theorem resto_limpo (intervalo : Intervalo) :
    61 ∉ intervalo.primeiro ++ 45 :: (intervalo.ultimo ++ 47 :: intervalo.total) := by
  have hdigits : ∀ digits : List UInt8, (∀ b ∈ digits, isdigit b) → 61 ∉ digits := by
    intro digits hall hmem
    exact absurd (hall 61 hmem) (by decide)
  have htotal : 61 ∉ intervalo.total := by
    rcases intervalo.total_dito with hstar | ⟨-, hall⟩
    · rw [hstar]
      decide
    · exact hdigits _ hall
  simp [hdigits _ intervalo.primeiro_digitos.2, hdigits _ intervalo.ultimo_digitos.2, htotal]

end Intervalo

/-- The field is a Content-Range. -/
def Campo.EhIntervalo (campo : Campo) : Bool := ehNome campo.nome "Content-Range"

/-- The field gives a range of bytes from `n` on. -/
def Campo.ComecaEm (campo : Campo) (n : Nat) : Prop :=
  ∃ intervalo : Intervalo, aparar campo.valor = intervalo.bytes ∧ intervalo.inicio = n

/-- The offset in the image of the first byte of the body. -/
inductive Cabeca.PrimeiroByte (cabeca : Cabeca) : Nat → Prop where
  | inteira : cabeca.status = 200 → cabeca.PrimeiroByte 0
  | parte {n : Nat} : cabeca.status = 206 → (∃ campo ∈ cabeca.campos, campo.EhIntervalo) →
      (∀ campo ∈ cabeca.campos, campo.EhIntervalo → campo.ComecaEm n) → cabeca.PrimeiroByte n

end FirmwareUpdater
