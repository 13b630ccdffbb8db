import CodemcpBridge.Text
import Mathlib.Data.List.Infix
import Mathlib.Data.List.Basic

/-!
# Sensitive paths

The deny list of `project_registry`: a component of a path is sensitive when its lower case form
matches one of a few globs.  What these globs match is a whole name, a name with a certain ending,
or a name with `.env.` in it.
-/

namespace CodemcpBridge

open Text

/-! ## The deny list -/

namespace ProjectRegistry

def sensitiveNames : List String :=
  [".git", ".codemcp", "id_rsa", "id_ed25519", "credentials", "password", "passwd", "secret",
    "secrets", "token"]

def sensitiveSuffixes : List String := [".pem", ".key", ".p12", ".pfx", ".crt", ".cer"]

def sensitiveGlobs : List String :=
  sensitiveNames ++ ["*.env", "*.env.*"] ++ sensitiveSuffixes.map ("*" ++ ·)

/-- The lower case form of a character.  Of the characters that are not ASCII only two have an ASCII
letter in it, and the others stand for themselves: no glob tells them apart. -/
def lowerChar (c : Char) : List Char :=
  if c = '\u212A' then ['k'] else if c = '\u0130' then ['i', '\u0307'] else [c.toLower]

/-- `part.lower()`. -/
def lowerName (part : String) : String := String.ofList (part.toList.flatMap lowerChar)

def isSensitivePart (part : String) : Bool :=
  sensitiveGlobs.any fun pattern => fnmatchcase (lowerName part) pattern

/-- `_is_sensitive`; the slash that an absolute path begins with is sensitive in no case. -/
def isSensitive (relativePath : String) : Bool := (parts relativePath).any isSensitivePart

end ProjectRegistry

/-! ## What a glob matches -/

namespace Text

variable {s p : List Char}

theorem globMatches_chars : globMatches (p.map .char) s = true ↔ s = p := by
  induction p generalizing s with
  | nil => cases s <;> simp [globMatches]
  | cons d p ih =>
    cases s with
    | nil => simp [globMatches]
    | cons c s => simp [globMatches, ih]

theorem globMatches_star {g : List Glob} :
    globMatches (.star :: g) s = true ↔ ∃ t, t <:+ s ∧ globMatches g t = true := by
  rw [globMatches, List.any_eq_true]
  simp only [List.mem_tails]

/-- A glob of the form `*.env`. -/
theorem globMatches_suffix : globMatches (.star :: p.map .char) s = true ↔ p <:+ s := by
  rw [globMatches_star]
  constructor
  · rintro ⟨t, ht, h⟩
    rwa [globMatches_chars.1 h] at ht
  · intro h
    exact ⟨p, h, globMatches_chars.2 rfl⟩

theorem globMatches_isPrefix : globMatches (p.map .char ++ [.star]) s = true ↔ p <+: s := by
  induction p generalizing s with
  | nil =>
    rw [List.map_nil, List.nil_append, globMatches_star]
    exact iff_of_true ⟨[], List.nil_suffix, rfl⟩ List.nil_prefix
  | cons d p ih =>
    cases s with
    | nil => exact iff_of_false (by simp [globMatches]) (by simp)
    | cons c s =>
      rw [List.map_cons, List.cons_append, globMatches, Bool.and_eq_true, beq_iff_eq, ih,
        List.cons_prefix_cons, eq_comm]

/-- A glob of the form `*.env.*`. -/
theorem globMatches_infix : globMatches (.star :: (p.map .char ++ [.star])) s = true ↔
    p <:+: s := by
  rw [globMatches_star, List.infix_iff_prefix_suffix]
  simp only [globMatches_isPrefix, and_comm]

end Text

namespace ProjectRegistry

variable {part : String}

theorem toList_lowerName (name : String) :
    (lowerName name).toList = name.toList.flatMap lowerChar := String.toList_ofList

theorem toLower_of_not_ascii {c : Char} (hc : ¬ c.toNat < 128) : c.toLower = c := by
  unfold Char.toLower
  rw [dif_neg]
  rintro ⟨-, h⟩
  have : c.toNat ≤ 'Z'.toNat := h
  exact hc (Nat.lt_of_le_of_lt this (by decide))

theorem lowerChar_of {c : Char} (hk : c ≠ '\u212A') (hd : c ≠ '\u0130') :
    lowerChar c = [c.toLower] := by
  rw [lowerChar, if_neg hk, if_neg hd]

/-- The endings of a sensitive name. -/
def endings : List String := ".env" :: sensitiveSuffixes

/-- The deny list as it is read. -/
theorem globs_sensitiveGlobs :
    sensitiveGlobs.map (fun pattern => globs pattern.length pattern.toList) =
      sensitiveNames.map (fun name => name.toList.map .char) ++
        [.star :: ".env".toList.map .char, .star :: (".env.".toList.map .char ++ [.star])] ++
        sensitiveSuffixes.map fun ending => .star :: ending.toList.map .char := by
  decide +kernel

theorem isSensitivePart_iff : isSensitivePart part = true ↔
    lowerName part ∈ sensitiveNames ∨
      (∃ ending ∈ endings, ending.toList <:+ (lowerName part).toList) ∨
        ".env.".toList <:+: (lowerName part).toList := by
  have hg : isSensitivePart part =
      (sensitiveGlobs.map fun pattern => globs pattern.length pattern.toList).any
        fun g => globMatches g (lowerName part).toList := by
    rw [List.any_map]
    rfl
  rw [hg, globs_sensitiveGlobs]
  simp only [List.any_append, List.any_map, List.any_cons, List.any_nil, Bool.or_eq_true,
    List.any_eq_true, Function.comp_apply, globMatches_chars, globMatches_suffix,
    globMatches_infix, Bool.false_eq_true, or_false, String.toList_inj, endings,
    List.exists_mem_cons_iff, exists_eq_right', or_assoc]
  exact or_congr_right (or_congr_right or_comm)

end ProjectRegistry

end CodemcpBridge
