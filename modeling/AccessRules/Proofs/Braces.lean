import AccessRules.Proofs.NumberTexts
import AccessRules.Rules.Layout
import Mathlib.Data.List.Infix

/-! Braces. A text is balanced if it closes the braces that it opens, and no others. Balanced texts
are closed under putting them side by side and under putting them in braces. All other characters
are free: escaping, trimming and cutting into lines keep the braces of a text as they are, and the
texts of numbers have none. -/
namespace AccessRules
namespace Text

def isBrace (c : Char) : Bool := c == leftBrace || c == rightBrace

/-- How many more braces a text opens than it closes. -/
def braceDepth (cs : List Char) : Int := (cs.count leftBrace : Int) - (cs.count rightBrace : Int)

/-- Reading the text, the number of open braces is never negative, and it is zero at the end. -/
structure Balanced (cs : List Char) : Prop where
  nonneg : ∀ u, u <+: cs → 0 ≤ braceDepth u
  settled : braceDepth cs = 0

instance (cs : List Char) : Decidable (Balanced cs) :=
  decidable_of_iff ((∀ u ∈ cs.inits, 0 ≤ braceDepth u) ∧ braceDepth cs = 0)
    ⟨fun h => ⟨fun u hu => h.1 u ((List.mem_inits u cs).2 hu), h.2⟩,
      fun h => ⟨fun u hu => h.nonneg u ((List.mem_inits u cs).1 hu), h.settled⟩⟩

theorem isBrace_eq_false {p : Char → Prop} (hopen : ¬p leftBrace) (hclose : ¬p rightBrace) {c : Char}
    (h : p c) : isBrace c = false := by
  by_contra hbrace
  simp only [isBrace, Bool.not_eq_false, Bool.or_eq_true, beq_iff_eq] at hbrace
  rcases hbrace with rfl | rfl
  · exact hopen h
  · exact hclose h

@[simp] theorem braceDepth_nil : braceDepth [] = 0 := rfl

@[simp] theorem braceDepth_append (u v : List Char) :
    braceDepth (u ++ v) = braceDepth u + braceDepth v := by
  simp only [braceDepth, List.count_append]
  omega

theorem braceDepth_cons (c : Char) (u : List Char) :
    braceDepth (c :: u) = braceDepth [c] + braceDepth u :=
  braceDepth_append [c] u

@[simp] theorem braceDepth_filter (cs : List Char) :
    braceDepth (cs.filter isBrace) = braceDepth cs := by
  rw [braceDepth, List.count_filter (by decide), List.count_filter (by decide), braceDepth]

section
variable {u v : List Char}

theorem balanced_nil : Balanced [] := by decide

theorem Balanced.append (hu : Balanced u) (hv : Balanced v) : Balanced (u ++ v) where
  nonneg := by
    rintro w ⟨rest, hw⟩
    rcases List.append_eq_append_iff.1 hw with ⟨x, hx, -⟩ | ⟨x, rfl, hx⟩
    · exact hu.nonneg w ⟨x, hx.symm⟩
    · have hdepth : 0 ≤ braceDepth x := hv.nonneg x ⟨rest, hx.symm⟩
      rw [braceDepth_append, hu.settled]
      omega
  settled := by
    rw [braceDepth_append, hu.settled, hv.settled]
    rfl

theorem Balanced.enclose (hu : Balanced u) : Balanced (leftBrace :: (u ++ [rightBrace])) where
  nonneg := by
    intro w hw
    have hopen : braceDepth [leftBrace] = 1 := rfl
    rcases List.prefix_cons_iff.1 hw with rfl | ⟨x, rfl, hx⟩
    · simp
    · rw [braceDepth_cons, hopen]
      rcases List.prefix_concat_iff.1 hx with rfl | hx
      · rw [braceDepth_append, hu.settled]
        decide
      · have hdepth : 0 ≤ braceDepth x := hu.nonneg x hx
        omega
  settled := by
    rw [braceDepth_cons, braceDepth_append, hu.settled]
    decide

theorem balanced_filter_iff : Balanced (u.filter isBrace) ↔ Balanced u := by
  constructor
  · refine fun h => ⟨fun w hw => ?_, ?_⟩
    · rw [← braceDepth_filter]
      exact h.nonneg _ (hw.filter isBrace)
    · rw [← braceDepth_filter, h.settled]
  · refine fun h => ⟨fun w hw => ?_, ?_⟩
    · obtain ⟨x, hx, rfl⟩ := List.prefix_filter_iff.1 hw
      rw [braceDepth_filter]
      exact h.nonneg x hx
    · rw [braceDepth_filter, h.settled]

theorem Balanced.of_filter_eq (hu : Balanced u) (h : v.filter isBrace = u.filter isBrace) :
    Balanced v := by
  rw [← balanced_filter_iff, h, balanced_filter_iff]
  exact hu

end

/-- The text opens a brace at its end, and is balanced before it. -/
def Opens (cs : List Char) : Prop := ∃ heading, Balanced heading ∧ cs = heading ++ [leftBrace]

section
variable {u v : List Char}

theorem Opens.braceDepth_eq (h : Opens u) : braceDepth u = 1 := by
  obtain ⟨heading, hheading, rfl⟩ := h
  rw [braceDepth_append, hheading.settled]
  rfl

theorem Balanced.append_opens (hu : Balanced u) (hv : Opens v) : Opens (u ++ v) := by
  obtain ⟨heading, hheading, rfl⟩ := hv
  exact ⟨u ++ heading, hu.append hheading, (List.append_assoc _ _ _).symm⟩

theorem Balanced.opens_opened {heading : String} (h : Balanced heading.toList) :
    Opens (opened heading).toList :=
  ⟨heading.toList ++ [' '], h.append (by decide), by simp⟩

theorem Opens.balanced_close (hu : Opens u) (hv : Balanced v) :
    Balanced (u ++ (v ++ [rightBrace])) := by
  obtain ⟨heading, hheading, rfl⟩ := hu
  rw [List.append_assoc]
  exact hheading.append hv.enclose

end

theorem balanced_flatMap {α : Type} {f : α → List Char} {xs : List α}
    (h : ∀ x ∈ xs, Balanced (f x)) : Balanced (xs.flatMap f) := by
  induction xs with
  | nil => exact balanced_nil
  | cons x xs ih =>
    rw [List.flatMap_cons]
    exact (h x (by simp)).append (ih fun y hy => h y (by simp [hy]))

def isBraceless (cs : List Char) : Bool := cs.all fun c => !isBrace c

theorem isBraceless_iff {cs : List Char} : isBraceless cs = true ↔ ∀ c ∈ cs, isBrace c = false := by
  simp [isBraceless]

theorem filter_of_isBraceless {cs : List Char} (h : isBraceless cs = true) :
    cs.filter isBrace = [] := by
  rw [List.filter_eq_nil_iff]
  intro c hc
  simp [isBraceless_iff.1 h c hc]

theorem balanced_of_isBraceless {cs : List Char} (h : isBraceless cs = true) : Balanced cs :=
  balanced_nil.of_filter_eq (filter_of_isBraceless h)

theorem balanced_intercalate {separator : List Char} (hs : Balanced separator)
    {us : List (List Char)} (h : ∀ u ∈ us, Balanced u) : Balanced (separator.intercalate us) := by
  induction us with
  | nil => exact balanced_nil
  | cons u us ih =>
    have hu : Balanced u := h u (by simp)
    have hus : Balanced (separator.intercalate us) := ih fun v hv => h v (by simp [hv])
    cases us with
    | nil => simpa using hu
    | cons v vs =>
      rw [List.intercalate_cons_cons]
      exact (hu.append hs).append hus

end Text
open Text

theorem Number.isBraceless_text (n : Number) : isBraceless n.text.toList = true := by
  rw [isBraceless_iff]
  intro c hc
  have hnumeric : isNumeric c = true := isNumeral_iff.1 n.isNumeral_text c hc
  exact @isBrace_eq_false (fun c => isNumeric c = true) (by decide) (by decide) c hnumeric

namespace Text

theorem filter_flatMap {f : Char → List Char}
    (h : ∀ c, (f c).filter isBrace = [c].filter isBrace) (cs : List Char) :
    (cs.flatMap f).filter isBrace = cs.filter isBrace := by
  induction cs with
  | nil => rfl
  | cons c cs ih =>
    rw [List.flatMap_cons, List.filter_append, h, ih, ← List.filter_append]
    rfl

theorem filter_singleQuoted (cs : List Char) :
    (singleQuoted cs).filter isBrace = cs.filter isBrace := by
  apply filter_flatMap
  intro c
  unfold singleQuotedChar
  split
  · have hslash : isBrace '\\' = false := by decide
    rw [List.filter_cons_of_neg (by simp [hslash])]
  · rfl

theorem not_isBrace_of_isBlank {c : Char} (h : isBlank c = true) : isBrace c = false :=
  @isBrace_eq_false (fun c => isBlank c = true) (by decide) (by decide) c h

theorem filter_trimStart (cs : List Char) : (trimStart cs).filter isBrace = cs.filter isBrace := by
  unfold trimStart
  induction cs with
  | nil => rfl
  | cons c cs ih =>
    by_cases h : isBlank c = true
    · rw [List.dropWhile_cons_of_pos h, ih,
        List.filter_cons_of_neg (by simp [not_isBrace_of_isBlank h])]
    · rw [List.dropWhile_cons_of_neg h]

theorem filter_trimEnd (cs : List Char) : (trimEnd cs).filter isBrace = cs.filter isBrace := by
  rw [trimEnd, List.filter_reverse, ← trimStart, filter_trimStart, List.filter_reverse,
    List.reverse_reverse]

theorem filter_trim (cs : List Char) : (trim cs).filter isBrace = cs.filter isBrace := by
  rw [trim, filter_trimEnd, filter_trimStart]

theorem filter_lines (cs : List Char) :
    (lines cs).flatten.filter isBrace = cs.filter isBrace := by
  have hfeed : isBrace '\n' = false := by decide
  have hreturn : isBrace '\r' = false := by decide
  fun_induction lines cs with
  | case1 => rfl
  | case2 rest ih => simp [hfeed, ih]
  | case3 rest ih => simp [hfeed, hreturn, ih]
  | case4 c rest _ _ hnil ih =>
    have hrest : rest.filter isBrace = [] := by rw [← ih, hnil, List.flatten_nil, List.filter_nil]
    rw [List.flatten_singleton, List.filter_cons, List.filter_cons, hrest, List.filter_nil]
  | case5 c rest _ _ line more hlines ih =>
    rw [hlines] at ih
    rw [List.flatten_cons, List.cons_append, List.filter_cons, List.filter_cons, ← ih,
      List.flatten_cons]

end Text

namespace Json

theorem isBraceless_controlEscape {c : Char} (h : c.toNat < 0x20) :
    isBraceless (controlEscape c) = true := by
  have hall : ∀ n < 0x20, isBraceless (['\\', 'u'] ++
      List.replicate (4 - (Nat.toDigits 16 n).length) '0' ++ Nat.toDigits 16 n) = true := by
    decide
  exact hall c.toNat h

theorem filter_escapeChar (c : Char) : (escapeChar c).filter isBrace = [c].filter isBrace := by
  have hown {a : Char} {escape : List Char} (ha : isBraceless [a] = true)
      (he : isBraceless escape = true) (hc : c = a) :
      escape.filter isBrace = [c].filter isBrace := by
    rw [hc, filter_of_isBraceless he, filter_of_isBraceless ha]
  unfold escapeChar
  split_ifs with hquote hslash hback htab hfeed hform hreturn hcontrol
  · exact hown (by decide) (by decide) hquote
  · exact hown (by decide) (by decide) hslash
  · exact hown (by decide) (by decide) hback
  · exact hown (by decide) (by decide) htab
  · exact hown (by decide) (by decide) hfeed
  · exact hown (by decide) (by decide) hform
  · exact hown (by decide) (by decide) hreturn
  · have hbrace : isBrace c = false :=
      @isBrace_eq_false (fun c => c.toNat < 0x20) (by decide) (by decide) c hcontrol
    rw [filter_of_isBraceless (isBraceless_controlEscape hcontrol),
      List.filter_cons_of_neg (by simp [hbrace]), List.filter_nil]
  · rfl

theorem filter_quote (s : String) : (quote s).toList.filter isBrace = s.toList.filter isBrace := by
  have hquote : isBrace '"' = false := by decide
  rw [quote, String.toList_ofList, List.filter_cons_of_neg (by simp [hquote]), List.filter_append,
    filter_flatMap filter_escapeChar]
  simp [hquote]

end Json

namespace Line

theorem filter_render (indent : Nat) (l : Line) :
    (l.render indent).toList.filter isBrace = l.text.toList.filter isBrace := by
  have hblank : isBrace ' ' = false := by decide
  have hfeed : isBrace '\n' = false := by decide
  simp [toList_render, hblank, hfeed]

theorem filter_written (indent : Nat) (ls : List Line) : (written indent ls).filter isBrace =
    ls.flatMap fun l => l.text.toList.filter isBrace := by
  rw [written, List.filter_flatMap]
  congr 1
  funext l
  exact filter_render indent l

theorem filter_written_ofText (indent depth : Nat) (text : String) :
    (written indent (ofText depth text)).filter isBrace = text.toList.filter isBrace := by
  have hline (cs : List Char) : (if (trimEnd cs).isEmpty then empty else
      ⟨depth, String.ofList (trimEnd cs)⟩ : Line).text.toList.filter isBrace =
        cs.filter isBrace := by
    split
    · next h =>
      rw [← filter_trimEnd cs, List.isEmpty_iff.1 h]
      rfl
    · rw [String.toList_ofList, filter_trimEnd]
  rw [filter_written, ofText, List.flatMap_map]
  simp only [hline]
  rw [← List.filter_flatMap, List.flatMap_id', filter_lines, filter_trim]

end Line
end AccessRules
