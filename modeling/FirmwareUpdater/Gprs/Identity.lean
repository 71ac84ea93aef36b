import FirmwareUpdater.Core.CLib
import FirmwareUpdater.Gprs.GsmLink
import FirmwareUpdater.Library.MaximalRuns

/-!
# The identity of the modem

`GsmLink::imei` and `GsmLink::iccid` ask the modem for an identity. Where the answer
of the library's own query is not one, they take it from the text of a raw response,
in which other output of the modem may stand around it: `extrairSequencia` copies
the first run of digits of a wanted length, and that is the first of the maximal
runs that have it (`extrairSequencia_primeira`).
-/

namespace FirmwareUpdater

open Library.MaximalRuns

/-- The characters a run is made of. -/
def digito (aceitaF : Bool) (c : UInt8) : Bool :=
  (48 ≤ c && c ≤ 57) || (aceitaF && (c = 70 || c = 102))

/-- A run of the wanted length. -/
def Serve (exatos minimo : Nat) (d : List UInt8) : Prop :=
  if exatos > 0 then d.length = exatos else minimo ≤ d.length

instance (exatos minimo : Nat) (d : List UInt8) : Decidable (Serve exatos minimo d) :=
  inferInstanceAs (Decidable (if exatos > 0 then d.length = exatos else minimo ≤ d.length))

/-- The loop of `extrairSequencia`, with the run `d` collected so far. -/
def percorrer (exatos minimo : Nat) (aceitaF : Bool) (d : List UInt8) : List UInt8 → List UInt8
  | [] => d
  | c :: resto =>
      if digito aceitaF c then percorrer exatos minimo aceitaF (d ++ [c]) resto
      else if exatos > 0 ∧ d.length = exatos then d
      else if exatos = 0 ∧ minimo ≤ d.length then d
      else percorrer exatos minimo aceitaF [] resto

/-- `extrairSequencia`. -/
def extrairSequencia (resposta out : List UInt8) (cap exatos minimo : Nat) (aceitaF : Bool) :
    Bool × List UInt8 :=
  let d := percorrer exatos minimo aceitaF [] resposta
  let ok : Bool := if exatos > 0 then d.length = exatos else minimo ≤ d.length
  if !ok || d.length + 1 > cap then (false, out)
  else (true, snprintf out cap (.ofBytes d))

section Extraction

variable {exatos minimo cap : Nat} {aceitaF : Bool} {resposta out : List UInt8}

/-- No run of the wanted length is empty. -/
theorem Serve.ne_nil (hminimo : exatos = 0 → 1 ≤ minimo) {d : List UInt8}
    (hd : Serve exatos minimo d) : d ≠ [] := by
  rintro rfl
  rw [Serve, List.length_nil] at hd
  split at hd <;> omega

/-- Behind another character the loop stops with a run of the wanted length, and goes on without
one. -/
theorem percorrer_outro {c : UInt8} (hc : ¬digito aceitaF c) (d resto : List UInt8) :
    percorrer exatos minimo aceitaF d (c :: resto) =
      if Serve exatos minimo d then d else percorrer exatos minimo aceitaF [] resto := by
  rw [percorrer, if_neg hc]
  by_cases hexatos : exatos > 0
  · have hserve : Serve exatos minimo d ↔ d.length = exatos := by rw [Serve, if_pos hexatos]
    simp only [hserve, hexatos, true_and, Nat.ne_of_gt hexatos, false_and, if_false]
  · obtain rfl : exatos = 0 := by omega
    have hserve : Serve 0 minimo d ↔ minimo ≤ d.length := by rw [Serve, if_neg hexatos]
    simp only [hserve, hexatos, false_and, if_false, true_and]

/-- The loop leaves in `d` the first run of the wanted length, or one of another length where there
is none. -/
theorem percorrer_spec (hminimo : exatos = 0 → 1 ≤ minimo) {antes d resto : List UInt8}
    (h : Scanned (digito aceitaF) (Serve exatos minimo) resposta antes d resto) :
    (Serve exatos minimo (percorrer exatos minimo aceitaF d resto) ∧
        FirstRun (digito aceitaF) (Serve exatos minimo) resposta
          (percorrer exatos minimo aceitaF d resto)) ∨
      (¬Serve exatos minimo (percorrer exatos minimo aceitaF d resto) ∧
        ¬HasRun (digito aceitaF) (Serve exatos minimo) resposta) := by
  induction resto generalizing antes d with
  | nil =>
      rw [percorrer]
      by_cases hd : Serve exatos minimo d
      · exact .inl ⟨hd, h.firstRun (hd.ne_nil hminimo) (fun x hx => by cases hx) hd⟩
      · exact .inr ⟨hd, h.not_hasRun hd⟩
  | cons c resto ih =>
      by_cases hc : digito aceitaF c
      · rw [percorrer, if_pos hc]
        exact ih (h.push hc)
      · rw [percorrer_outro hc]
        by_cases hd : Serve exatos minimo d
        · rw [if_pos hd]
          refine .inl ⟨hd, h.firstRun (hd.ne_nil hminimo) ?_ hd⟩
          intro x hx
          cases hx
          exact hc
        · rw [if_neg hd]
          exact ih (h.skip hc hd)

/-- The terminator is no character of a run. -/
theorem noNul_of_firstRun {wanted : List UInt8 → Prop} {run : List UInt8}
    (h : FirstRun (digito aceitaF) wanted resposta run) : 0 ∉ run := by
  obtain ⟨_, _, hrun, -⟩ := h
  intro hzero
  have hdigito := hrun.all 0 hzero
  cases aceitaF <;> cases hdigito

/-- What `extrairSequencia` does: it copies the first run of the wanted length if that fits, and
leaves `out` alone otherwise. -/
theorem extrairSequencia_spec (hminimo : exatos = 0 → 1 ≤ minimo) (resposta out : List UInt8)
    (cap : Nat) (aceitaF : Bool) :
    (∃ run, FirstRun (digito aceitaF) (Serve exatos minimo) resposta run ∧ run.length < cap ∧
        extrairSequencia resposta out cap exatos minimo aceitaF =
          (true, overwrite out (run ++ [0]))) ∨
      extrairSequencia resposta out cap exatos minimo aceitaF = (false, out) ∧
        (¬HasRun (digito aceitaF) (Serve exatos minimo) resposta ∨
          ∃ run, FirstRun (digito aceitaF) (Serve exatos minimo) resposta run ∧
            cap ≤ run.length) := by
  have hstart : Scanned (digito aceitaF) (Serve exatos minimo) resposta [] [] resposta := .start
  have hspec := percorrer_spec hminimo hstart
  have hok (d : List UInt8) :
      (if exatos > 0 then decide (d.length = exatos) else decide (minimo ≤ d.length)) =
        decide (Serve exatos minimo d) := by
    unfold Serve
    split <;> rfl
  simp only [extrairSequencia, hok]
  generalize percorrer exatos minimo aceitaF [] resposta = d at hspec
  rcases hspec with ⟨hserve, hfirst⟩ | ⟨hserve, hnone⟩
  · rw [decide_eq_true hserve, Bool.not_true, Bool.false_or]
    by_cases hfits : d.length < cap
    · refine .inl ⟨d, hfirst, hfits, ?_⟩
      rw [decide_eq_false (by omega), if_neg Bool.false_ne_true,
        snprintf_of_lt (noNul_of_firstRun hfirst) hfits]
    · rw [decide_eq_true (by omega), if_pos rfl]
      exact .inr ⟨rfl, .inr ⟨d, hfirst, by omega⟩⟩
  · rw [decide_eq_false hserve, Bool.not_false, Bool.true_or, if_pos rfl]
    exact .inr ⟨rfl, .inl hnone⟩

/-- `extrairSequencia` returns true exactly if the response has a maximal run of the wanted length
and the first one is shorter than `cap`; `out` then holds that run and a terminator behind it. -/
theorem extrairSequencia_primeira (resposta out : List UInt8) (cap exatos minimo : Nat)
    (aceitaF : Bool) (hminimo : exatos = 0 → 1 ≤ minimo) :
    ((extrairSequencia resposta out cap exatos minimo aceitaF).1 = true ↔
        HasRun (digito aceitaF) (Serve exatos minimo) resposta ∧
          ∀ run, FirstRun (digito aceitaF) (Serve exatos minimo) resposta run →
            run.length < cap) ∧
      ((extrairSequencia resposta out cap exatos minimo aceitaF).1 = true →
        ∃ run, FirstRun (digito aceitaF) (Serve exatos minimo) resposta run ∧
          (extrairSequencia resposta out cap exatos minimo aceitaF).2 =
            overwrite out (run ++ [0])) := by
  rcases extrairSequencia_spec hminimo resposta out cap aceitaF with
    ⟨run, hfirst, hfits, hcall⟩ | ⟨hcall, hrefused⟩
  · rw [hcall]
    refine ⟨iff_of_true rfl ⟨hfirst.hasRun, fun other hother => ?_⟩, fun _ => ⟨run, hfirst, rfl⟩⟩
    rwa [hother.unique hfirst]
  · rw [hcall]
    refine ⟨iff_of_false Bool.false_ne_true ?_, fun h => by cases h⟩
    rintro ⟨hthere, hshort⟩
    rcases hrefused with hnone | ⟨run, hfirst, hlong⟩
    · exact hnone hthere
    · exact absurd (hshort run hfirst) (Nat.not_lt.mpr hlong)

/-- An identity of nineteen characters behind other output, a shorter run among it. -/
theorem extrairSequencia_primeira_iccid :
    ∃ run, FirstRun (digito true) (Serve 0 18)
        (ascii "+CMTI: 12\r\n+CCID: 895517022012345678F\r\n") run ∧
      (extrairSequencia (ascii "+CMTI: 12\r\n+CCID: 895517022012345678F\r\n")
        (List.replicate 24 0) 24 0 18 true).2 = overwrite (List.replicate 24 0) (run ++ [0]) :=
  (extrairSequencia_primeira _ _ 24 0 18 true fun _ => by decide).2 (by decide +kernel)

end Extraction

namespace GsmLink

/-! ## IMEI and ICCID -/

/-- What the modem answers to a request for an identity: the library's own query, and the raw
response to the command after it, if one comes in time. -/
structure RespostaId where
  direto : List UInt8
  resposta : Option (List UInt8)

/-- The course that `imei` and `iccid` share. -/
def identidade (exatos minimo : Nat) (aceitaF : Bool) (link : GsmLink) (r : RespostaId)
    (out : Option (List UInt8)) (cap : Nat) : Bool × Option (List UInt8) :=
  match out with
  | none => (false, none)
  | some block =>
      if link.modem = false ∨ cap = 0 then (false, out)
      else
        let block := block.set 0 0
        if Serve exatos minimo r.direto ∧ r.direto.length + 1 ≤ cap then
          (true, some (snprintf block cap (.ofBytes r.direto)))
        else
          match r.resposta with
          | none => (false, some block)
          | some resposta =>
              let (ok, block) := extrairSequencia resposta block cap exatos minimo aceitaF
              (ok, some block)

/-- `imei`: fifteen digits. -/
def imei := identidade 15 0 false

/-- `iccid`: usually nineteen or twenty characters, some of them ending in an F. -/
def iccid := identidade 0 18 true

variable {exatos minimo cap : Nat} {aceitaF : Bool} {link : GsmLink} {r : RespostaId}
  {block : List UInt8}

/-- With a modem and a buffer, an identity that is found is one of the wanted length that fits, and
the buffer holds it with a terminator; otherwise it holds an empty string. -/
theorem identidade_spec (aceitaF : Bool) (block : List UInt8) (hmodem : link.modem = true)
    (hcap : 0 < cap) (hdireto : 0 ∉ r.direto) (hminimo : exatos = 0 → 1 ≤ minimo) :
    (∃ id, Serve exatos minimo id ∧ id.length < cap ∧ 0 ∉ id ∧
        identidade exatos minimo aceitaF link r (some block) cap =
          (true, some (overwrite (block.set 0 0) (id ++ [0])))) ∨
      identidade exatos minimo aceitaF link r (some block) cap =
        (false, some (block.set 0 0)) := by
  have hready : ¬(link.modem = false ∨ cap = 0) := by
    rw [hmodem]
    simpa using Nat.ne_of_gt hcap
  simp only [identidade, if_neg hready]
  by_cases hdirect : Serve exatos minimo r.direto ∧ r.direto.length + 1 ≤ cap
  · rw [if_pos hdirect, snprintf_of_lt hdireto hdirect.2]
    exact .inl ⟨r.direto, hdirect.1, hdirect.2, hdireto, rfl⟩
  · rw [if_neg hdirect]
    cases r.resposta with
    | none => exact .inr rfl
    | some resposta =>
        dsimp only
        rcases extrairSequencia_spec hminimo resposta (block.set 0 0) cap aceitaF with
          ⟨run, hfirst, hfits, hcall⟩ | ⟨hcall, -⟩
        · rw [hcall]
          exact .inl ⟨run, hfirst.qualifying, hfits, (noNul_of_firstRun hfirst), rfl⟩
        · rw [hcall]
          exact .inr rfl

/-- An identity that is found reads back from the buffer as one of the wanted length. -/
theorem identidade_text (hmodem : link.modem = true) (hcap : 0 < cap) (hdireto : 0 ∉ r.direto)
    (hminimo : exatos = 0 → 1 ≤ minimo) {after : List UInt8}
    (h : identidade exatos minimo aceitaF link r (some block) cap = (true, some after)) :
    Serve exatos minimo (CString.ofBytes after).bytes ∧ (CString.ofBytes after).length < cap := by
  rcases identidade_spec aceitaF block hmodem hcap hdireto hminimo with
    ⟨id, hserve, hfits, hnul, hcall⟩ | hcall
  · rw [hcall] at h
    cases h
    have hbytes : (CString.ofBytes (overwrite (block.set 0 0) (id ++ [0]))).bytes = id := by
      rw [overwrite, List.append_assoc, List.singleton_append]
      exact CString.ofBytes_terminated _ _ hnul
    rw [CString.length, hbytes]
    exact ⟨hserve, hfits⟩
  · rw [hcall] at h
    cases h

/-- An IMEI has fifteen characters. -/
theorem imei_text (hmodem : link.modem = true) (hcap : 0 < cap) (hdireto : 0 ∉ r.direto)
    {after : List UInt8} (h : imei link r (some block) cap = (true, some after)) :
    (CString.ofBytes after).length = 15 ∧ 15 < cap := by
  obtain ⟨hserve, hfits⟩ := identidade_text hmodem hcap hdireto (fun h => by cases h) h
  have hlength : (CString.ofBytes after).length = 15 := hserve
  exact ⟨hlength, hlength ▸ hfits⟩

/-- An ICCID has at least eighteen, and is not cut. -/
theorem iccid_text (hmodem : link.modem = true) (hcap : 0 < cap) (hdireto : 0 ∉ r.direto)
    {after : List UInt8} (h : iccid link r (some block) cap = (true, some after)) :
    18 ≤ (CString.ofBytes after).length ∧ (CString.ofBytes after).length < cap :=
  identidade_text hmodem hcap hdireto (fun _ => by decide) h

end GsmLink

end FirmwareUpdater
