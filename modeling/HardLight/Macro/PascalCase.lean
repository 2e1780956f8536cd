import HardLight.Lib.Segments
import Mathlib

/-!
# Variant names

`snake_to_pascal_case`, which the `#[rpc]` macro makes the names of its enum variants with. The loop carries
a flag from character to character; `char::to_uppercase`, which gives one character or more, is a parameter.

* `pascalWords` : what the loop computes, by segments;
* `foldl_onChar` : the loop from any point on, with either value of the flag;
* `snakeToPascalCase_spec` : the segments capitalised and put together; no underscore is left, extra
  underscores do not matter, and the result is left alone by the function.
-/

namespace HardLight
open Lib

/-- The variables of the loop. -/
structure PascalCase where
  result : String
  capitalizeNext : Bool

namespace PascalCase

/-- The body of `for_each`. -/
def onChar (toUppercase : Char → List Char) (p : PascalCase) (c : Char) : PascalCase :=
  match c with
  | '_' => { p with capitalizeNext := true }
  | c =>
    if p.capitalizeNext then { result := p.result ++ String.ofList (toUppercase c), capitalizeNext := false }
    else { p with result := p.result.push c }

end PascalCase

def snakeToPascalCase (toUppercase : Char → List Char) (s : String) : String :=
  (s.toList.foldl (PascalCase.onChar toUppercase) { result := "", capitalizeNext := true }).result

variable {toUppercase : Char → List Char}

/-! ## By segments -/

/-- A segment with the upper-case expansion of its first character. -/
def capitalize (toUppercase : Char → List Char) : List Char → List Char
  | [] => []
  | c :: cs => toUppercase c ++ cs

/-- The segments capitalised and put together; the first one only if `first` says so. -/
def pascalWords (toUppercase : Char → List Char) (first : Bool) : List (List Char) → List Char
  | [] => []
  | seg :: segs => (if first then capitalize toUppercase seg else seg) ++ segs.flatMap (capitalize toUppercase)

theorem pascalWords_true (segs : List (List Char)) :
    pascalWords toUppercase true segs = segs.flatMap (capitalize toUppercase) := by
  cases segs with
  | nil => rfl
  | cons seg segs => rfl

@[simp] theorem pascalWords_nil_cons (first : Bool) (segs : List (List Char)) :
    pascalWords toUppercase first ([] :: segs) = segs.flatMap (capitalize toUppercase) := by
  cases first <;> rfl

@[simp] theorem pascalWords_cons_cons (first : Bool) (c : Char) (seg : List Char) (segs : List (List Char)) :
    pascalWords toUppercase first ((c :: seg) :: segs) =
      (if first then toUppercase c else [c]) ++ pascalWords toUppercase false (seg :: segs) := by
  cases first with
  | false => rfl
  | true =>
    show (toUppercase c ++ seg) ++ _ = toUppercase c ++ (seg ++ _)
    rw [List.append_assoc]

/-- **What is left of the loop**, from any result and either value of the flag. -/
theorem foldl_onChar (cs : List Char) (p : PascalCase) :
    (cs.foldl (PascalCase.onChar toUppercase) p).result.toList =
      p.result.toList ++ pascalWords toUppercase p.capitalizeNext (cs.splitOn '_') := by
  induction cs generalizing p with
  | nil => simp
  | cons c cs ih =>
    rw [List.foldl_cons, ih, List.splitOn_cons_eq_if_modifyHead]
    unfold PascalCase.onChar
    split
    next => rw [if_pos (beq_self_eq_true _), pascalWords_nil_cons, pascalWords_true]
    next hc =>
      obtain ⟨seg, segs, hsplit⟩ := List.exists_cons_of_ne_nil (List.splitOn_ne_nil '_' cs)
      rw [if_neg fun heq => hc (beq_iff_eq.mp heq), hsplit, List.modifyHead_cons, pascalWords_cons_cons]
      by_cases hflag : p.capitalizeNext
      · simp [hflag]
      · simp [hflag]

theorem toList_snakeToPascalCase (s : String) :
    (snakeToPascalCase toUppercase s).toList = (s.toList.splitOn '_').flatMap (capitalize toUppercase) := by
  rw [snakeToPascalCase, foldl_onChar, pascalWords_true]
  rfl

/-! ## Under what Unicode guarantees -/

/-- An expansion starts with a character that is its own upper case, and no character but the underscore
expands to one. -/
structure LawfulUppercase (toUppercase : Char → List Char) : Prop where
  first : ∀ c, ∃ u rest, toUppercase c = u :: rest ∧ toUppercase u = [u]
  no_underscore : ∀ c, c ≠ '_' → '_' ∉ toUppercase c

namespace LawfulUppercase

theorem not_mem_capitalize (hU : LawfulUppercase toUppercase) {seg : List Char} (h : '_' ∉ seg) :
    '_' ∉ capitalize toUppercase seg := by
  cases seg with
  | nil => exact h
  | cons c cs =>
    rw [List.mem_cons, not_or] at h
    show '_' ∉ toUppercase c ++ cs
    rw [List.mem_append, not_or]
    exact ⟨hU.no_underscore c fun heq => h.1 heq.symm, h.2⟩

theorem capitalize_append (hU : LawfulUppercase toUppercase) (seg tail : List Char)
    (htail : capitalize toUppercase tail = tail) :
    capitalize toUppercase (capitalize toUppercase seg ++ tail) = capitalize toUppercase seg ++ tail := by
  cases seg with
  | nil => exact htail
  | cons c cs =>
    obtain ⟨u, rest, hu, hself⟩ := hU.first c
    simp [capitalize, hu, hself]

theorem capitalize_flatMap (hU : LawfulUppercase toUppercase) (segs : List (List Char)) :
    capitalize toUppercase (segs.flatMap (capitalize toUppercase)) =
      segs.flatMap (capitalize toUppercase) := by
  induction segs with
  | nil => rfl
  | cons seg segs ih =>
    rw [List.flatMap_cons]
    exact hU.capitalize_append seg _ ih

theorem not_mem_snakeToPascalCase (hU : LawfulUppercase toUppercase) (s : String) :
    '_' ∉ (snakeToPascalCase toUppercase s).toList := by
  rw [toList_snakeToPascalCase, List.mem_flatMap]
  rintro ⟨seg, hseg, hmem⟩
  exact hU.not_mem_capitalize (not_mem_of_mem_splitOn hseg) hmem

theorem snakeToPascalCase_idem (hU : LawfulUppercase toUppercase) (s : String) :
    snakeToPascalCase toUppercase (snakeToPascalCase toUppercase s) = snakeToPascalCase toUppercase s := by
  apply String.toList_inj.mp
  rw [toList_snakeToPascalCase, List.splitOn_eq_singleton (hU.not_mem_snakeToPascalCase s),
    List.flatMap_singleton, toList_snakeToPascalCase]
  exact hU.capitalize_flatMap _

end LawfulUppercase

/-- **Pascal case is the capitalised segments in a row**: no underscore is left, extra underscores make no
difference, and what is in Pascal case stays. -/
theorem snakeToPascalCase_spec (hU : LawfulUppercase toUppercase) (s : String) :
    snakeToPascalCase toUppercase s =
        String.ofList ((s.toList.splitOn '_').flatMap (capitalize toUppercase)) ∧
      '_' ∉ (snakeToPascalCase toUppercase s).toList ∧
      (∀ t : String, Padded '_' s.toList t.toList →
        snakeToPascalCase toUppercase t = snakeToPascalCase toUppercase s) ∧
      snakeToPascalCase toUppercase (snakeToPascalCase toUppercase s) = snakeToPascalCase toUppercase s := by
  refine ⟨?_, hU.not_mem_snakeToPascalCase s, fun t hpad => ?_, hU.snakeToPascalCase_idem s⟩
  · apply String.toList_inj.mp
    rw [toList_snakeToPascalCase, String.toList_ofList]
  · apply String.toList_inj.mp
    rw [toList_snakeToPascalCase, toList_snakeToPascalCase]
    exact flatMap_splitOn_padded rfl hpad

/-- Upper case as the ASCII letters have it. -/
def asciiUppercase (c : Char) : List Char := [c.toUpper]

theorem lawful_asciiUppercase : LawfulUppercase asciiUppercase where
  first c := ⟨c.toUpper, [], rfl, by rw [asciiUppercase, Char.toUpper_toUpper_eq_toUpper]⟩
  no_underscore c hc := by
    rw [asciiUppercase, List.mem_singleton]
    intro heq
    by_cases hlower : c.isLower
    · have hupper : c.toUpper.isUpper = c.isAlpha := Char.isUpper_toUpper_eq_isAlpha c
      rw [← heq, Char.isAlpha, hlower, Bool.or_true] at hupper
      exact absurd hupper (by decide)
    · rw [Char.toUpper_eq_of_not_isLower hlower] at heq
      exact hc heq.symm

/-- `new_counter`, the same name with more underscores, and the name of its variant. -/
theorem snakeToPascalCase_newCounter :
    snakeToPascalCase asciiUppercase "_new__counter" = "NewCounter" ∧
      snakeToPascalCase asciiUppercase "NewCounter" = "NewCounter" := by
  obtain ⟨hwords, -, hpadded, hidem⟩ := snakeToPascalCase_spec lawful_asciiUppercase "new_counter"
  have hname : snakeToPascalCase asciiUppercase "new_counter" = "NewCounter" := by decide
  have hpad : Padded '_' "new_counter".toList "_new__counter".toList :=
    .tail (.single (.beside ['n', 'e', 'w'] ['c', 'o', 'u', 'n', 't', 'e', 'r'])) (.front _)
  rw [hname] at hpadded hidem
  exact ⟨hpadded "_new__counter" hpad, hidem⟩

end HardLight
