import FirmwareUpdater.Core.CLib
import Mathlib.Data.List.DropRight
import Mathlib.Data.List.Infix

/-!
# HTTP/1.1 response heads

What a server sends before a response's body: a status line, header fields, each on
a line of its own that CRLF ends, and an empty line. A `Campo` is a field with the
value as it stands after the colon, blanks included; a `Cabeca` is a head whose
Content-Length fields agree on one number of at most 32 bits.
-/

namespace FirmwareUpdater

/-- A byte that may stand in a line: neither a line end nor a terminator. -/
def texto (b : UInt8) : Bool := b ≠ 0 && b ≠ 10 && b ≠ 13

/-- A byte that may stand in the name of a field. -/
def tchar (b : UInt8) : Bool :=
  isdigit b || (65 ≤ b && b ≤ 90) || (97 ≤ b && b ≤ 122) || b ∈ ascii "!#$%&'*+-.^_`|~"

/-- The blanks around a value. -/
def branco (b : UInt8) : Bool := b = 32 || b = 9

/-- A value without the blanks around it. -/
def aparar (valor : List UInt8) : List UInt8 := (valor.dropWhile branco).rdropWhile branco

/-- `nome` without regard to case. -/
def ehNome (nome : List UInt8) (esperado : String) : Bool :=
  nome.map tolower = (ascii esperado).map tolower

/-- Where a value is read, as to its quoted strings. -/
inductive Aspas where
  | fora
  | dentro
  | escape
  deriving DecidableEq

/-- What follows after one more byte. -/
def Aspas.depois : Aspas → UInt8 → Aspas
  | .fora, b => if b = 34 then .dentro else .fora
  | .dentro, b => if b = 34 then .fora else if b = 92 then .escape else .dentro
  | .escape, _ => .dentro

/-- The elements of a comma-separated value: the first one, and the others. -/
def elementos : Aspas → List UInt8 → List UInt8 × List (List UInt8)
  | _, [] => ([], [])
  | aspas, b :: bytes =>
      if aspas = .fora ∧ b = 44 then
        let (primeiro, outros) := elementos .fora bytes
        ([], primeiro :: outros)
      else
        let (primeiro, outros) := elementos (aspas.depois b) bytes
        (b :: primeiro, outros)

/-- A header field. -/
structure Campo where
  nome : List UInt8
  valor : List UInt8
  nome_ne : nome ≠ []
  nome_token : ∀ b ∈ nome, tchar b
  valor_texto : ∀ b ∈ valor, texto b

namespace Campo

/-- The line of the field, without its line end. -/
def linha (campo : Campo) : List UInt8 := campo.nome ++ 58 :: campo.valor

/-- The field gives the length of the body. -/
def EhTamanho (campo : Campo) : Bool := ehNome campo.nome "Content-Length"

/-- The transfer codings a value names, without their parameters. -/
def codificacoes (campo : Campo) : List (List UInt8) :=
  let (primeiro, outros) := elementos .fora campo.valor
  (primeiro :: outros).map fun elemento => aparar (elemento.takeWhile (· ≠ 59))

/-- The field is a Transfer-Encoding that names chunked. -/
def NomeiaChunked (campo : Campo) : Bool :=
  ehNome campo.nome "Transfer-Encoding" &&
    campo.codificacoes.any fun codificacao => ehNome codificacao "chunked"

end Campo

/-- A response head; `tamanho` is what its Content-Length fields say, and 0 if there is none. -/
structure Cabeca where
  codigo : List UInt8
  motivo : List UInt8
  campos : List Campo
  tamanho : UInt32
  codigo_digitos : codigo.length = 3 ∧ ∀ b ∈ codigo, isdigit b
  motivo_texto : ∀ b ∈ motivo, texto b
  tamanho_dito : ∀ campo ∈ campos, campo.EhTamanho →
    aparar campo.valor ≠ [] ∧ (∀ b ∈ aparar campo.valor, isdigit b) ∧
      decimal (aparar campo.valor) = tamanho.toNat
  tamanho_ausente : (∀ campo ∈ campos, ¬campo.EhTamanho) → tamanho = 0

namespace Cabeca

/-- The status code. -/
def status (cabeca : Cabeca) : Nat := decimal cabeca.codigo

/-- The status line, without its line end. -/
def linhaDeStatus (cabeca : Cabeca) : List UInt8 :=
  ascii "HTTP/1.1 " ++ cabeca.codigo ++ 32 :: cabeca.motivo

/-- The lines of the head, without their ends; the empty one comes after them. -/
def linhas (cabeca : Cabeca) : List (List UInt8) :=
  cabeca.linhaDeStatus :: cabeca.campos.map Campo.linha

/-- The bytes of the head. -/
def bytes (cabeca : Cabeca) : List UInt8 :=
  (cabeca.linhas ++ [[]]).flatMap (· ++ [13, 10])

/-- Some field names chunked. -/
def NomeiaChunked (cabeca : Cabeca) : Prop := ∃ campo ∈ cabeca.campos, campo.NomeiaChunked

end Cabeca

/-- A byte of a name may stand in a line. -/
theorem texto_of_tchar {b : UInt8} (h : tchar b) : texto b := by
  simp only [texto, Bool.and_eq_true, decide_eq_true_eq]
  refine ⟨⟨?_, ?_⟩, ?_⟩ <;> rintro rfl <;> revert h <;> decide

/-- A line holds no terminator and no line end. -/
theorem Campo.linha_texto (campo : Campo) : ∀ b ∈ campo.linha, texto b := by
  intro b hb
  rw [linha, List.mem_append, List.mem_cons] at hb
  rcases hb with hb | rfl | hb
  · exact texto_of_tchar (campo.nome_token b hb)
  · decide
  · exact campo.valor_texto b hb

theorem Cabeca.linhaDeStatus_texto (cabeca : Cabeca) : ∀ b ∈ cabeca.linhaDeStatus, texto b := by
  intro b hb
  simp only [linhaDeStatus, List.mem_append, List.mem_cons] at hb
  rcases hb with (hb | hb) | rfl | hb
  · revert b
    decide +kernel
  · have hdigito := cabeca.codigo_digitos.2 b hb
    exact texto_of_tchar (by simp [tchar, hdigito])
  · decide
  · exact cabeca.motivo_texto b hb

theorem Cabeca.linhas_texto (cabeca : Cabeca) : ∀ linha ∈ cabeca.linhas, ∀ b ∈ linha, texto b := by
  intro linha hlinha
  obtain rfl | ⟨campo, -, rfl⟩ := by simpa [linhas] using hlinha
  · exact cabeca.linhaDeStatus_texto
  · exact campo.linha_texto

/-- No colon stands in the name of a field. -/
theorem Campo.dois_pontos_not_mem (campo : Campo) : 58 ∉ campo.nome := by
  intro hmem
  have htoken := campo.nome_token 58 hmem
  revert htoken
  decide

/-- An element is a part of the value. -/
theorem elementos_isInfix (aspas : Aspas) (valor : List UInt8) :
    (elementos aspas valor).1 <+: valor ∧
      ∀ elemento ∈ (elementos aspas valor).2, elemento <:+: valor := by
  induction valor generalizing aspas with
  | nil => exact ⟨List.prefix_rfl, by simp [elementos]⟩
  | cons b bytes ih =>
      rw [elementos]
      split_ifs with hcomma
      · obtain ⟨hfirst, hothers⟩ := ih .fora
        refine ⟨List.nil_prefix, fun elemento hmem => ?_⟩
        rcases List.mem_cons.mp hmem with rfl | hmem
        · exact List.infix_cons hfirst.isInfix
        · exact List.infix_cons (hothers elemento hmem)
      · obtain ⟨hfirst, hothers⟩ := ih (aspas.depois b)
        exact ⟨List.cons_prefix_cons.mpr ⟨rfl, hfirst⟩,
          fun elemento hmem => List.infix_cons (hothers elemento hmem)⟩

/-- What is left without the blanks is a part of the value. -/
theorem aparar_isInfix (valor : List UInt8) : aparar valor <:+: valor :=
  (List.rdropWhile_prefix _ _).isInfix.trans (List.dropWhile_suffix _).isInfix

/-- The name of a coding is a part of the value. -/
theorem Campo.codificacao_isInfix {campo : Campo} {codificacao : List UInt8}
    (h : codificacao ∈ campo.codificacoes) : codificacao <:+: campo.valor := by
  obtain ⟨hfirst, hothers⟩ := elementos_isInfix .fora campo.valor
  obtain ⟨elemento, hmem, rfl⟩ := List.mem_map.mp h
  have helemento : elemento <:+: campo.valor := by
    rcases List.mem_cons.mp hmem with rfl | hmem
    · exact hfirst.isInfix
    · exact hothers elemento hmem
  exact ((aparar_isInfix _).trans (List.takeWhile_prefix _).isInfix).trans helemento

end FirmwareUpdater
