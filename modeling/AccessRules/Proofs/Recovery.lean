import AccessRules.Proofs.Emission
import AccessRules.Rules.Layout

/-! Compiled rules read back from their text. A line of a block begins, after its indentation, with
a character that tells what it is: the head of a block, a statement, the end of a block, or nothing
at all. So the text of a block ends where its own closing line stands, whatever the indentation and
whatever follows, and equal texts come from equal trees. -/
namespace AccessRules

namespace Text

def lead? (cs : List Char) : Option Char := (cs.dropWhile fun c => c = ' ').head?

theorem lead?_replicate (n : Nat) {c : Char} (hc : c ≠ ' ') (rest : List Char) :
    lead? (List.replicate n ' ' ++ c :: rest) = some c := by
  induction n with
  | zero => simp [lead?, hc]
  | succ n ih => simpa [lead?, List.replicate_succ] using ih

/-- Items in a row are told apart from what follows if each of them ends where it ends and all of
them begin with a character that does not follow them. -/
theorem flatMap_append_inj {α : Type} {w : α → List Char} {c : Char} {xs ys : List α}
    {r s : List Char} (hx : ∀ a ∈ xs, ∀ rest, lead? (w a ++ rest) = some c)
    (hy : ∀ b ∈ ys, ∀ rest, lead? (w b ++ rest) = some c)
    (hinj : ∀ a ∈ xs, ∀ b ∈ ys, ∀ r s, w a ++ r = w b ++ s → a = b ∧ r = s)
    (hr : lead? r ≠ some c) (hs : lead? s ≠ some c)
    (h : xs.flatMap w ++ r = ys.flatMap w ++ s) : xs = ys ∧ r = s := by
  induction xs generalizing ys with
  | nil =>
    cases ys with
    | nil => exact ⟨rfl, h⟩
    | cons b ys =>
      rw [List.flatMap_nil, List.nil_append, List.flatMap_cons, List.append_assoc] at h
      exact absurd (h ▸ hy b (by simp) _) hr
  | cons a xs ih =>
    rw [List.flatMap_cons, List.append_assoc] at h
    cases ys with
    | nil =>
      rw [List.flatMap_nil, List.nil_append] at h
      exact absurd (h ▸ hx a (by simp) _) hs
    | cons b ys =>
      rw [List.flatMap_cons, List.append_assoc] at h
      obtain ⟨rfl, hrest⟩ := hinj a (by simp) b (by simp) _ _ h
      obtain ⟨rfl, hends⟩ := ih (fun a ha => hx a (by simp [ha])) (fun b hb => hy b (by simp [hb]))
        (fun a ha b hb => hinj a (by simp [ha]) b (by simp [hb])) hrest
      exact ⟨rfl, hends⟩

end Text
open Text

namespace Line
variable {indent depth : Nat}

theorem render_append_inj {a b : String} (ha : '\n' ∉ a.toList) (hb : '\n' ∉ b.toList)
    {r s : List Char}
    (h : (render indent ⟨depth, a⟩).toList ++ r = (render indent ⟨depth, b⟩).toList ++ s) :
    a = b ∧ r = s := by
  rw [toList_render, toList_render] at h
  simp only [List.append_assoc] at h
  have hne {text : String} (ht : '\n' ∉ text.toList) : ∀ c ∈ text.toList, c ≠ '\n' := by
    rintro c hc rfl
    exact ht hc
  obtain ⟨hab, -, hrest⟩ := append_cons_inj (hne ha) (hne hb) (by simp) (by simp)
    (List.append_cancel_left h)
  exact ⟨String.toList_inj.1 hab, hrest⟩

theorem lead?_render {text : String} {c : Char} {cs : List Char} (h : text.toList = c :: cs)
    (hc : c ≠ ' ') (rest : List Char) :
    lead? ((render indent ⟨depth, text⟩).toList ++ rest) = some c := by
  rw [toList_render, h, List.append_assoc]
  exact lead?_replicate _ hc _

theorem lead?_render_empty (rest : List Char) :
    lead? ((render indent empty).toList ++ rest) = some '\n' := by
  rw [toList_render, List.append_assoc]
  exact lead?_replicate _ (by decide) rest

end Line

theorem append_cons_inj_of_not_mem {α : Type} {c : α} {xs ys r s : List α} (hr : c ∉ r)
    (hs : c ∉ s) (h : xs ++ c :: r = ys ++ c :: s) : xs = ys ∧ r = s := by
  have hne {zs : List α} (hz : c ∉ zs) : ∀ z ∈ zs.reverse, z ≠ c := by
    rintro z hmem rfl
    exact hz (List.mem_reverse.1 hmem)
  have hreverse : r.reverse ++ c :: xs.reverse = s.reverse ++ c :: ys.reverse := by
    simpa using congrArg List.reverse h
  obtain ⟨hends, -, hstarts⟩ := append_cons_inj (hne hr) (hne hs) (by simp) (by simp) hreverse
  exact ⟨List.reverse_inj.1 hstarts, List.reverse_inj.1 hends⟩

namespace Segment

/-- The wildcard of a segment with the mark of a recursive one. -/
def marked (s : Segment) : List Char :=
  s.wildcard.toList ++ if s.recursive then "=**".toList else []

theorem toList_opening (s : Segment) : s.opening.toList =
    "match /".toList ++ ((s.collection.toList ++ '/' :: leftBrace :: s.marked) ++
      [rightBrace, ' ', leftBrace]) := by
  unfold opening marked
  cases s.recursive <;> simp

variable {s t : Segment}

theorem marked_inj (hs : '=' ∉ s.wildcard.toList) (ht : '=' ∉ t.wildcard.toList)
    (h : s.marked = t.marked) : s.wildcard = t.wildcard ∧ s.recursive = t.recursive := by
  have hmark {u : Segment} (hu : '=' ∉ u.wildcard.toList) :
      '=' ∈ u.marked ↔ u.recursive = true := by
    cases hrec : u.recursive <;> simp [marked, hrec, hu]
  have hrecursive : s.recursive = t.recursive := by
    rw [Bool.eq_iff_iff, ← hmark hs, ← hmark ht, h]
  rw [marked, marked, hrecursive] at h
  exact ⟨String.toList_inj.1 (List.append_cancel_right h), hrecursive⟩

theorem slash_not_mem_marked (h : '/' ∉ s.wildcard.toList) : '/' ∉ s.marked := by
  cases hrec : s.recursive <;> simp [marked, hrec, h]

/-- The head of a block tells its segment if the wildcard has no slash and no equals sign. -/
theorem opening_inj (hs : '/' ∉ s.wildcard.toList ∧ '=' ∉ s.wildcard.toList)
    (ht : '/' ∉ t.wildcard.toList ∧ '=' ∉ t.wildcard.toList) (h : s.opening = t.opening) :
    s = t := by
  rw [← String.toList_inj, toList_opening, toList_opening] at h
  have hmiddle := List.append_cancel_right (List.append_cancel_left h)
  have hnone {u : Segment} (hu : '/' ∉ u.wildcard.toList) : '/' ∉ leftBrace :: u.marked := by
    simpa using slash_not_mem_marked hu
  obtain ⟨hcollection, hrest⟩ := append_cons_inj_of_not_mem (hnone hs.1) (hnone ht.1) hmiddle
  obtain ⟨hwildcard, hrecursive⟩ := marked_inj hs.2 ht.2 (List.cons.inj hrest).2
  rcases s with ⟨c, w, r⟩
  rcases t with ⟨c', w', r'⟩
  rw [Segment.mk.injEq]
  exact ⟨String.toList_inj.1 hcollection, hwildcard, hrecursive⟩

end Segment

namespace Block

/-- Nothing in the block breaks a line, its statements begin as statements do, and its wildcard has
no slash and no equals sign. -/
structure Legible (b : Block) : Prop where
  collection : '\n' ∉ b.segment.collection.toList
  wildcard : '\n' ∉ b.segment.wildcard.toList ∧ '/' ∉ b.segment.wildcard.toList ∧
    '=' ∉ b.segment.wildcard.toList
  statements : ∀ s ∈ b.statements, '\n' ∉ s.toList ∧ "allow ".toList <+: s.toList

instance (b : Block) : Decidable b.Legible :=
  decidable_of_iff ('\n' ∉ b.segment.collection.toList ∧
      ('\n' ∉ b.segment.wildcard.toList ∧ '/' ∉ b.segment.wildcard.toList ∧
        '=' ∉ b.segment.wildcard.toList) ∧
      ∀ s ∈ b.statements, '\n' ∉ s.toList ∧ "allow ".toList <+: s.toList)
    ⟨fun h => ⟨h.1, h.2.1, h.2.2⟩, fun h => ⟨h.collection, h.wildcard, h.statements⟩⟩

theorem Legible.opening {b : Block} (h : b.Legible) : '\n' ∉ b.segment.opening.toList := by
  have hwildcard := h.wildcard.1
  have hmarked : '\n' ∉ b.segment.marked := by
    cases hrec : b.segment.recursive <;> simp [Segment.marked, hrec, hwildcard]
  simp [Segment.toList_opening, h.collection, hmarked]

theorem allLines_true (depth : Nat) (ts : List (Tree Block)) :
    allLines depth true ts = ts.flatMap fun t => Line.empty :: lines depth t := by
  induction ts with
  | nil => rfl
  | cons t ts ih => simp [allLines, ih]

section
variable {indent depth : Nat}

theorem lead?_lines (t : Tree Block) (rest : List Char) :
    lead? (Line.written indent (lines depth t) ++ rest) = some 'm' := by
  obtain ⟨b, ts⟩ := t
  rw [lines]
  simp only [List.cons_append, List.nil_append, Line.written_cons, List.append_assoc]
  exact Line.lead?_render (b.segment.toList_opening) (by decide) _

theorem statements_append_inj {ss us : List String}
    (hs : ∀ s ∈ ss, '\n' ∉ s.toList ∧ "allow ".toList <+: s.toList)
    (hu : ∀ u ∈ us, '\n' ∉ u.toList ∧ "allow ".toList <+: u.toList) {q r : List Char}
    (hq : lead? q ≠ some 'a') (hr : lead? r ≠ some 'a')
    (h : Line.written indent (ss.map (Line.mk depth)) ++ q =
      Line.written indent (us.map (Line.mk depth)) ++ r) : ss = us ∧ q = r := by
  have hlead {s : String} (hallow : "allow ".toList <+: s.toList) (rest : List Char) :
      lead? ((Line.render indent ⟨depth, s⟩).toList ++ rest) = some 'a' := by
    obtain ⟨more, hmore⟩ := hallow
    exact Line.lead?_render hmore.symm (by decide) rest
  rw [Line.written, Line.written, List.flatMap_map, List.flatMap_map] at h
  exact flatMap_append_inj (fun s hmem => hlead (hs s hmem).2) (fun u hmem => hlead (hu u hmem).2)
    (fun s hmem u hmem' _ _ => Line.render_append_inj (hs s hmem).1 (hu u hmem').1) hq hr h

/-- Blocks in a row, before the end of the block around them, do not look like statements. -/
theorem lead?_allLines {q : List Char} (hq : lead? q = some rightBrace) (gap : Bool)
    (ts : List (Tree Block)) :
    lead? (Line.written indent (allLines depth gap ts) ++ q) ≠ some 'a' := by
  cases ts with
  | nil =>
    rw [allLines, Line.written_nil, List.nil_append, hq]
    decide
  | cons t ts =>
    cases gap with
    | true =>
      rw [allLines_true, List.flatMap_cons, List.cons_append, Line.written_cons, List.append_assoc,
        Line.lead?_render_empty]
      decide
    | false =>
      simp only [allLines, Bool.false_eq_true, if_false, List.nil_append, Line.written_append,
        List.append_assoc, lead?_lines]
      decide

theorem spacedLines_append_inj {ts us : List (Tree Block)}
    (hinj : ∀ t ∈ ts, ∀ u ∈ us, ∀ q r, Line.written indent (lines depth t) ++ q =
      Line.written indent (lines depth u) ++ r → t = u ∧ q = r)
    {q r : List Char} (hq : lead? q = some rightBrace) (hr : lead? r = some rightBrace)
    (h : Line.written indent (allLines depth true ts) ++ q =
      Line.written indent (allLines depth true us) ++ r) : ts = us ∧ q = r := by
  have hlead (t : Tree Block) (rest : List Char) :
      lead? (Line.written indent (Line.empty :: lines depth t) ++ rest) = some '\n' := by
    rw [Line.written_cons, List.append_assoc, Line.lead?_render_empty]
  rw [allLines_true, allLines_true, Line.written_flatMap, Line.written_flatMap] at h
  refine flatMap_append_inj (fun t _ => hlead t) (fun u _ => hlead u) (fun t ht u hu q r hw => ?_)
    (by simp [hq]) (by simp [hr]) h
  rw [Line.written_cons, Line.written_cons, List.append_assoc, List.append_assoc] at hw
  exact hinj t ht u hu q r (List.append_cancel_left hw)

theorem allLines_append_inj {ts us : List (Tree Block)} {gap : Bool}
    (hinj : ∀ t ∈ ts, ∀ u ∈ us, ∀ q r, Line.written indent (lines depth t) ++ q =
      Line.written indent (lines depth u) ++ r → t = u ∧ q = r)
    {q r : List Char} (hq : lead? q = some rightBrace) (hr : lead? r = some rightBrace)
    (h : Line.written indent (allLines depth gap ts) ++ q =
      Line.written indent (allLines depth gap us) ++ r) : ts = us ∧ q = r := by
  cases gap with
  | true => exact spacedLines_append_inj hinj hq hr h
  | false =>
    cases ts with
    | nil =>
      cases us with
      | nil => exact ⟨rfl, h⟩
      | cons u us =>
        have hlead := congrArg lead? h
        simp [allLines, hq, lead?_lines] at hlead
    | cons t ts =>
      cases us with
      | nil =>
        have hlead := congrArg lead? h
        simp [allLines, hr, lead?_lines] at hlead
      | cons u us =>
        simp only [allLines, Bool.false_eq_true, if_false, List.nil_append, Line.written_append,
          List.append_assoc] at h
        obtain ⟨rfl, hrest⟩ := hinj t (by simp) u (by simp) _ _ h
        obtain ⟨rfl, hends⟩ := spacedLines_append_inj
          (fun t ht u hu => hinj t (by simp [ht]) u (by simp [hu])) hq hr hrest
        exact ⟨rfl, hends⟩

theorem written_lines (b : Block) (ts : List (Tree Block)) (rest : List Char) :
    Line.written indent (lines depth (.node b ts)) ++ rest =
      (Line.render indent ⟨depth, b.segment.opening⟩).toList ++
        (Line.written indent (b.statements.map (Line.mk (depth + 1))) ++
          (Line.written indent (allLines (depth + 1) (!b.statements.isEmpty) ts) ++
            ((Line.render indent (Line.closing depth)).toList ++ rest))) := by
  rw [lines]
  simp only [List.cons_append, List.nil_append, Line.written_cons, Line.written_append,
    Line.written_nil, List.append_assoc, List.append_nil]

/-- A block is told apart from what follows it. -/
theorem lines_append_inj {t u : Tree Block} (ht : ∀ b ∈ t.labels, b.Legible)
    (hu : ∀ b ∈ u.labels, b.Legible) {q r : List Char}
    (h : Line.written indent (lines depth t) ++ q = Line.written indent (lines depth u) ++ r) :
    t = u ∧ q = r := by
  induction t generalizing u depth q r with
  | node b ts ih =>
    obtain ⟨c, us⟩ := u
    have hb : b.Legible := ht b (by simp)
    have hc : c.Legible := hu c (by simp)
    have hclose (rest : List Char) :
        lead? ((Line.render indent (Line.closing depth)).toList ++ rest) = some rightBrace :=
      Line.lead?_render rfl (by decide) rest
    rw [written_lines, written_lines] at h
    obtain ⟨hopening, h⟩ := Line.render_append_inj hb.opening hc.opening h
    have hsegment : b.segment = c.segment :=
      Segment.opening_inj hb.wildcard.2 hc.wildcard.2 hopening
    obtain ⟨hstatements, h⟩ := statements_append_inj hb.statements hc.statements
      (lead?_allLines (hclose q) _ ts) (lead?_allLines (hclose r) _ us) h
    rw [hstatements] at h
    obtain ⟨hchildren, hclosing⟩ := allLines_append_inj (fun t hmem u hmem' q r => ih t hmem
      (fun b hb => ht b (Tree.mem_labels_node hmem hb))
      (fun b hb => hu b (Tree.mem_labels_node hmem' hb))) (hclose q) (hclose r) h
    have hblock : b = c := by
      cases b
      cases c
      simp_all
    exact ⟨by rw [hblock, hchildren], List.append_cancel_left hclosing⟩

end

end Block

/-- Nothing in the rules breaks a line, except in functions, and all blocks can be read. -/
structure Rules.Legible (r : Rules) : Prop where
  topLevel : '\n' ∉ r.topLevel.toList
  blocks : ∀ t ∈ r.trees, ∀ b ∈ t.labels, b.Legible

namespace Rules

def closingLines (r : Rules) : List Line :=
  Line.ofText 2 helperFunction ++ r.functions.flatMap (fun f => Line.empty :: Line.ofText 2 f) ++
    [Line.closing 1, Line.closing 0]

theorem lines_eq (style : Style) (r : Rules) : r.lines style =
    [⟨0, "rules_version = '" ++ style.version ++ "';"⟩, Line.empty,
      ⟨0, opened "service cloud.firestore"⟩] ++ ⟨1, opened ("match " ++ r.topLevel)⟩ ::
      (r.trees.flatMap (fun t => Block.lines 2 t ++ [Line.empty]) ++ r.closingLines) := by
  simp [lines, closingLines]

theorem ofText_helperFunction : Line.ofText 2 helperFunction =
    [⟨2, opened "function getOr(request, field, defaultValue)"⟩,
      ⟨2, "  return request.resource.data.get(field, defaultValue);"⟩, Line.closing 2] := by
  decide +kernel

theorem lead?_closingLines {indent : Nat} (r : Rules) :
    lead? (Line.written indent r.closingLines) = some 'f' := by
  rw [closingLines, ofText_helperFunction, List.append_assoc, List.cons_append, Line.written_cons]
  exact Line.lead?_render rfl (by decide) _

/-- If two values have the same text in some style, they have the same path and the same trees. -/
theorem eq_of_render_eq {style : Style} {r s : Rules} (hr : r.Legible) (hs : s.Legible)
    (h : r.render style = s.render style) : r.topLevel = s.topLevel ∧ r.trees = s.trees := by
  rw [← String.toList_inj, toList_render, toList_render, lines_eq, lines_eq,
    Line.written_append, Line.written_append] at h
  have hbody := List.append_cancel_left h
  rw [Line.written_cons, Line.written_cons] at hbody
  have hline {q : Rules} (hq : q.Legible) : '\n' ∉ (opened ("match " ++ q.topLevel)).toList := by
    simp [hq.topLevel]
  obtain ⟨hpath, htrees⟩ := Line.render_append_inj (hline hr) (hline hs) hbody
  refine ⟨?_, ?_⟩
  · simpa using hpath
  · have hlead (t : Tree Block) (rest : List Char) :
        lead? (Line.written style.indent (Block.lines 2 t ++ [Line.empty]) ++ rest) = some 'm' := by
      rw [Line.written_append, List.append_assoc, Block.lead?_lines]
    rw [Line.written_append, Line.written_append, Line.written_flatMap, Line.written_flatMap]
      at htrees
    refine (flatMap_append_inj (fun t _ => hlead t) (fun t _ => hlead t)
      (fun t ht u hu q r hw => ?_) (by simp [lead?_closingLines]) (by simp [lead?_closingLines])
      htrees).1
    simp only [Line.written_append, List.append_assoc] at hw
    obtain ⟨rfl, hrest⟩ := Block.lines_append_inj (hr.blocks t ht) (hs.blocks u hu) hw
    exact ⟨rfl, List.append_cancel_left hrest⟩

/-- Two values with blocks in blocks and different functions have one text without indentation. -/
theorem eq_of_render_eq_flat :
    let inner : Block :=
      ⟨{ collection := "posts/" ++ braced "id" ++ "/x", wildcard := "", recursive := true }, []⟩
    let outer : Block := ⟨{ collection := "users", wildcard := "uid" }, ["allow get;"]⟩
    let trees : List (Tree Block) := [.node outer [.node inner [], .node outer []], .node inner []]
    let r : Rules := { topLevel := "/documents", trees, functions := ["f"] }
    let s : Rules := { topLevel := "/documents", trees, functions := [" f\n"] }
    let style : Style := { indent := 0 }
    r.functions ≠ s.functions ∧ r.Legible ∧ s.Legible ∧ r.render style = s.render style ∧
      r.topLevel = s.topLevel ∧ r.trees = s.trees := by
  intro inner outer trees r s style
  have hblocks : ∀ t ∈ trees, ∀ b ∈ t.labels, b.Legible := by decide
  have hr : r.Legible := ⟨by decide, hblocks⟩
  have hs : s.Legible := ⟨by decide, hblocks⟩
  have hfunction : Line.ofText 2 "f" = Line.ofText 2 " f\n" := by decide
  have hlines : r.lines style = s.lines style := by
    simp only [lines, r, s, List.flatMap_cons, hfunction]
  have hrender : r.render style = s.render style := by rw [render, render, hlines]
  exact ⟨by decide, hr, hs, hrender, eq_of_render_eq hr hs hrender⟩

end Rules
end AccessRules
