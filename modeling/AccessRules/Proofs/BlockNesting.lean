import AccessRules.Proofs.BalancedTexts
import AccessRules.Proofs.Recovery

/-! Braces of laid out rules. The lines of a block open one brace, hold balanced texts and balanced
blocks, and close the brace again. So the whole text is balanced, all of it from the service line to
the last line is inside the brace of the service, and a statement stands inside the braces of the
service, of the path, of its block and of the blocks around it. -/
namespace AccessRules
open Text

namespace Line

def texts (ls : List Line) : List Char := ls.flatMap fun l => l.text.toList

@[simp] theorem texts_nil : texts [] = [] := rfl

@[simp] theorem texts_cons (l : Line) (ls : List Line) :
    texts (l :: ls) = l.text.toList ++ texts ls := by
  simp [texts]

@[simp] theorem texts_append (ls ms : List Line) : texts (ls ++ ms) = texts ls ++ texts ms := by
  simp [texts]

@[simp] theorem text_empty : empty.text.toList = [] := rfl

theorem texts_map_mk (depth : Nat) (ss : List String) :
    texts (ss.map (Line.mk depth)) = ss.flatMap String.toList := by
  rw [texts, List.flatMap_map]

theorem texts_flatMap {α : Type} (f : α → List Line) (xs : List α) :
    texts (xs.flatMap f) = xs.flatMap fun x => texts (f x) := by
  simp [texts, List.flatMap_assoc]

theorem toList_render_zero (indent : Nat) (text : String) :
    (render indent ⟨0, text⟩).toList = text.toList ++ ['\n'] := by
  rw [toList_render, Nat.mul_zero, List.replicate_zero, List.nil_append]

theorem filter_written_eq (indent : Nat) (ls : List Line) :
    (written indent ls).filter isBrace = (texts ls).filter isBrace := by
  rw [filter_written, texts, List.filter_flatMap]

theorem balanced_written {indent : Nat} {ls : List Line} (h : Balanced (texts ls)) :
    Balanced (written indent ls) :=
  h.of_filter_eq (filter_written_eq indent ls)

theorem braceDepth_written (indent : Nat) (ls : List Line) :
    braceDepth (written indent ls) = braceDepth (texts ls) := by
  rw [← braceDepth_filter, filter_written_eq, braceDepth_filter]

theorem balanced_texts_ofText {text : String} (h : Balanced text.toList) (depth : Nat) :
    Balanced (texts (ofText depth text)) := by
  apply h.of_filter_eq
  rw [← filter_written_eq 0, filter_written_ofText]

end Line

theorem Segment.opens_opening {s : Segment} (hcollection : Balanced s.collection.toList)
    (hwildcard : Balanced s.wildcard.toList) : Opens s.opening.toList := by
  have hmatch : Balanced "match /".toList := balanced_of_isBraceless (by decide)
  have hslash : Balanced ['/'] := by decide
  have hopen : Opens [' ', leftBrace] := ⟨[' '], by decide, rfl⟩
  have hmarked : Balanced s.marked := by
    unfold Segment.marked
    refine hwildcard.append ?_
    split
    · exact balanced_of_isBraceless (by decide)
    · exact balanced_nil
  have hopening := hmatch.append_opens (hcollection.append_opens
    (hslash.append_opens (hmarked.enclose.append_opens hopen)))
  rw [toList_opening]
  simpa using hopening

namespace Block

/-- All texts of the blocks of a tree are balanced. -/
def BalancedTree (t : Tree Block) : Prop := ∀ b ∈ t.labels, ∀ s ∈ b.texts, Balanced s.toList

variable {depth : Nat}

theorem BalancedTree.child {b : Block} {ts : List (Tree Block)} (h : BalancedTree (.node b ts))
    {t : Tree Block} (ht : t ∈ ts) : BalancedTree t :=
  fun c hc => h c (Tree.mem_labels_node ht hc)

theorem BalancedTree.opening {b : Block} {ts : List (Tree Block)}
    (h : BalancedTree (.node b ts)) : Opens b.segment.opening.toList :=
  Segment.opens_opening (h b (by simp) _ (by simp [texts])) (h b (by simp) _ (by simp [texts]))

theorem BalancedTree.statements {b : Block} {ts : List (Tree Block)}
    (h : BalancedTree (.node b ts)) : ∀ s ∈ b.statements, Balanced s.toList :=
  fun s hs => h b (by simp) s (by simp [texts, hs])

theorem texts_allLines (gap : Bool) (ts : List (Tree Block)) :
    Line.texts (allLines depth gap ts) = ts.flatMap fun t => Line.texts (lines depth t) := by
  induction ts generalizing gap with
  | nil => rfl
  | cons t ts ih => cases gap <;> simp [allLines, ih]

theorem texts_lines (b : Block) (ts : List (Tree Block)) :
    Line.texts (lines depth (.node b ts)) = b.segment.opening.toList ++
      ((b.statements.flatMap String.toList ++
        ts.flatMap fun t => Line.texts (lines (depth + 1) t)) ++ [rightBrace]) := by
  rw [lines]
  simp [texts_allLines, Line.texts_map_mk]

theorem balanced_lines {t : Tree Block} (h : BalancedTree t) :
    Balanced (Line.texts (lines depth t)) := by
  induction t generalizing depth with
  | node b ts ih =>
    have hinside : Balanced (b.statements.flatMap String.toList ++
        ts.flatMap fun t => Line.texts (lines (depth + 1) t)) :=
      (balanced_flatMap h.statements).append (balanced_flatMap fun t ht => ih t ht (h.child ht))
    rw [texts_lines]
    exact h.opening.balanced_close hinside

/-- The empty line before a block that stands behind others, if there is one. -/
def gapBefore (gap : Bool) (before : List (Tree Block)) : List Line :=
  if gap || !before.isEmpty then [Line.empty] else []

theorem texts_gapBefore (gap : Bool) (before : List (Tree Block)) :
    Line.texts (gapBefore gap before) = [] := by
  unfold gapBefore
  split <;> rfl

theorem allLines_append_cons (gap : Bool) (before : List (Tree Block)) (t : Tree Block)
    (after : List (Tree Block)) :
    allLines depth gap (before ++ t :: after) = allLines depth gap before ++
      (gapBefore gap before ++ (lines depth t ++ allLines depth true after)) := by
  induction before generalizing gap with
  | nil => cases gap <;> simp [allLines, gapBefore]
  | cons u before ih =>
    rw [List.cons_append, allLines, ih, allLines]
    simp [gapBefore]

def linesBefore (number : Nat) (depth : Nat) : List Nat → Tree Block → List Line
  | [], .node b _ =>
    ⟨depth, b.segment.opening⟩ :: (b.statements.take number).map (Line.mk (depth + 1))
  | i :: path, .node b ts =>
    ⟨depth, b.segment.opening⟩ :: (b.statements.map (Line.mk (depth + 1)) ++
      (allLines (depth + 1) (!b.statements.isEmpty) (ts.take i) ++
        (gapBefore (!b.statements.isEmpty) (ts.take i) ++
          ts[i]?.elim [] (linesBefore number (depth + 1) path))))

end Block

theorem eq_take_append_cons {α : Type} {xs : List α} {i : Nat} {x : α} (h : xs[i]? = some x) :
    xs = xs.take i ++ x :: xs.drop (i + 1) := by
  obtain ⟨hi, rfl⟩ := List.getElem?_eq_some_iff.1 h
  rw [← List.drop_eq_getElem_cons hi, List.take_append_drop]

namespace Block
variable {depth number : Nat} {path : List Nat} {t u : Tree Block}

/-- A statement is written behind the lines before it, at the depth of its block. -/
theorem exists_lines_eq (h : t.at? path = some u) {s : String}
    (hs : u.label.statements[number]? = some s) :
    ∃ after, lines depth t =
      linesBefore number depth path t ++ ⟨depth + path.length + 1, s⟩ :: after := by
  induction path generalizing t depth with
  | nil =>
    obtain rfl : t = u := by simpa using h
    obtain ⟨b, ts⟩ := t
    rw [Tree.label_node] at hs
    refine ⟨(b.statements.drop (number + 1)).map (Line.mk (depth + 1)) ++
      allLines (depth + 1) (!b.statements.isEmpty) ts ++ [Line.closing depth], ?_⟩
    have hmap : b.statements.map (Line.mk (depth + 1)) =
        (b.statements.take number).map (Line.mk (depth + 1)) ++ ⟨depth + 1, s⟩ ::
          (b.statements.drop (number + 1)).map (Line.mk (depth + 1)) := by
      conv_lhs => rw [eq_take_append_cons hs]
      simp
    rw [lines, linesBefore, hmap]
    simp
  | cons i path ih =>
    obtain ⟨b, ts⟩ := t
    rw [Tree.at?_cons, Tree.children_node, Option.bind_eq_some_iff] at h
    obtain ⟨c, hc, hu⟩ := h
    obtain ⟨after, hafter⟩ := @ih (depth + 1) c hu
    have hsplit := eq_take_append_cons hc
    refine ⟨after ++ allLines (depth + 1) true (ts.drop (i + 1)) ++ [Line.closing depth], ?_⟩
    have hlines : allLines (depth + 1) (!b.statements.isEmpty) ts =
        allLines (depth + 1) (!b.statements.isEmpty) (ts.take i) ++
          (gapBefore (!b.statements.isEmpty) (ts.take i) ++
            (lines (depth + 1) c ++ allLines (depth + 1) true (ts.drop (i + 1)))) := by
      conv_lhs => rw [hsplit]
      exact allLines_append_cons _ _ _ _
    have hdepth : depth + 1 + path.length + 1 = depth + (i :: path).length + 1 := by
      simp only [List.length_cons]
      omega
    rw [lines, linesBefore, hlines, hafter, hc, hdepth]
    simp

/-- Before a statement, one brace is open for its block and one for each block around it. -/
theorem braceDepth_linesBefore (ht : BalancedTree t) (h : t.at? path = some u) :
    braceDepth (Line.texts (linesBefore number depth path t)) = path.length + 1 := by
  induction path generalizing t depth with
  | nil =>
    obtain ⟨b, ts⟩ := t
    have hstatements : Balanced ((b.statements.take number).flatMap String.toList) :=
      balanced_flatMap fun s hs => ht.statements s (List.mem_of_mem_take hs)
    rw [linesBefore, Line.texts_cons, Line.texts_map_mk, braceDepth_append,
      ht.opening.braceDepth_eq, hstatements.settled]
    rfl
  | cons i path ih =>
    obtain ⟨b, ts⟩ := t
    rw [Tree.at?_cons, Tree.children_node, Option.bind_eq_some_iff] at h
    obtain ⟨c, hc, hu⟩ := h
    have hstatements : Balanced (b.statements.flatMap String.toList) :=
      balanced_flatMap ht.statements
    have hbefore : Balanced ((ts.take i).flatMap fun t => Line.texts (lines (depth + 1) t)) :=
      balanced_flatMap fun t hmem => balanced_lines (ht.child (List.mem_of_mem_take hmem))
    have hchild := @ih (depth + 1) c (ht.child (List.mem_of_getElem? hc)) hu
    rw [linesBefore, hc]
    simp only [Line.texts_cons, Line.texts_append, Line.texts_map_mk, texts_allLines,
      texts_gapBefore, braceDepth_append, braceDepth_nil, ht.opening.braceDepth_eq,
      hstatements.settled, hbefore.settled, Option.elim_some, hchild, List.length_cons]
    omega

end Block

namespace Rules

def headLines (style : Style) : List Line :=
  [⟨0, "rules_version = '" ++ style.version ++ "';"⟩, Line.empty]

def opening (style : Style) : List Char :=
  Line.written style.indent (headLines style) ++ (opened "service cloud.firestore").toList

def pathLine (r : Rules) : Line := ⟨1, opened ("match " ++ r.topLevel)⟩

def serviceLines (r : Rules) : List Line :=
  r.pathLine :: (r.trees.flatMap (fun t => Block.lines 2 t ++ [Line.empty]) ++
    (Line.ofText 2 helperFunction ++
      (r.functions.flatMap (fun f => Line.empty :: Line.ofText 2 f) ++ [Line.closing 1])))

theorem lines_eq_service (style : Style) (r : Rules) : r.lines style = headLines style ++
    ⟨0, opened "service cloud.firestore"⟩ :: (r.serviceLines ++ [Line.closing 0]) := by
  simp only [lines, headLines, serviceLines, pathLine, List.cons_append, List.nil_append,
    List.append_assoc]

theorem toList_render_eq (style : Style) (r : Rules) : (r.render style).toList =
    opening style ++ ('\n' :: Line.written style.indent r.serviceLines ++ [rightBrace, '\n']) := by
  have hlast : Line.written style.indent [Line.closing 0] = [rightBrace, '\n'] := by
    rw [Line.written_cons, Line.closing, Line.toList_render_zero, String.toList_singleton]
    rfl
  rw [toList_render, lines_eq_service, opening, Line.written_append, Line.written_cons,
    Line.written_append, Line.toList_render_zero, hlast]
  simp only [List.append_assoc, List.cons_append, List.nil_append]

variable {style : Style} {r : Rules}

theorem balanced_headLines (h : Balanced style.version.toList) :
    Balanced (Line.texts (headLines style)) := by
  have hname : Balanced "rules_version = '".toList := balanced_of_isBraceless (by decide)
  have hend : Balanced "';".toList := balanced_of_isBraceless (by decide)
  have hversion := balanced_append (balanced_append hname h) hend
  simpa only [headLines, Line.texts_cons, Line.texts_nil, Line.text_empty, List.append_nil]
    using hversion

theorem opens_service : Opens (opened "service cloud.firestore").toList :=
  (balanced_of_isBraceless (by decide)).opens_opened

theorem opens_opening (h : Balanced style.version.toList) : Opens (opening style) :=
  (Line.balanced_written (balanced_headLines h)).append_opens opens_service

theorem balanced_helperLines : Balanced (Line.texts (Line.ofText 2 helperFunction)) := by
  have hopen : Opens (opened "function getOr(request, field, defaultValue)").toList :=
    (balanced_of_isBraceless (by decide)).opens_opened
  have hreturn : Balanced "  return request.resource.data.get(field, defaultValue);".toList :=
    balanced_of_isBraceless (by decide)
  rw [ofText_helperFunction, Line.texts_cons, Line.texts_cons, Line.texts_cons, Line.texts_nil,
    Line.toList_text_closing, List.append_nil]
  exact hopen.balanced_close hreturn

section
variable (h : ∀ s ∈ r.texts, Balanced s.toList)
include h

theorem opens_pathLine : Opens r.pathLine.text.toList := by
  have hmatch : Balanced "match ".toList := balanced_of_isBraceless (by decide)
  have htopLevel : Balanced r.topLevel.toList := h _ (by simp [texts])
  exact (balanced_append hmatch htopLevel).opens_opened

theorem balancedTree_of_mem {t : Tree Block} (ht : t ∈ r.trees) : Block.BalancedTree t := by
  intro b hb s hs
  have hlabels : b ∈ r.trees.flatMap Tree.labels := List.mem_flatMap.2 ⟨t, ht, hb⟩
  exact h s (List.mem_cons_of_mem _ (List.mem_append_left _ (List.mem_flatMap.2 ⟨b, hlabels, hs⟩)))

theorem balanced_treeLines {ts : List (Tree Block)} (hts : ∀ t ∈ ts, t ∈ r.trees) :
    Balanced (Line.texts (ts.flatMap fun t => Block.lines 2 t ++ [Line.empty])) := by
  rw [Line.texts_flatMap]
  refine balanced_flatMap fun t ht => ?_
  rw [Line.texts_append]
  exact (Block.balanced_lines (balancedTree_of_mem h (hts t ht))).append balanced_nil

theorem balanced_serviceLines : Balanced (Line.texts r.serviceLines) := by
  have htrees := balanced_treeLines h fun t ht => ht
  have hfunctions : Balanced
      (Line.texts (r.functions.flatMap fun f => Line.empty :: Line.ofText 2 f)) := by
    rw [Line.texts_flatMap]
    refine balanced_flatMap fun f hf => ?_
    rw [Line.texts_cons]
    exact balanced_nil.append (Line.balanced_texts_ofText (h f (by simp [texts, hf])) 2)
  have hinside := htrees.append (balanced_helperLines.append hfunctions)
  have hservice := (opens_pathLine h).balanced_close hinside
  have hlast : Line.texts [Line.closing 1] = [rightBrace] := by simp
  simpa only [serviceLines, Line.texts_cons, Line.texts_append, hlast, List.append_assoc]
    using hservice

end

/-- The lines before a statement of the block at a position, whose first step chooses the tree. -/
def linesBefore (style : Style) (number i : Nat) (path : List Nat) (r : Rules) : List Line :=
  headLines style ++ ⟨0, opened "service cloud.firestore"⟩ :: r.pathLine ::
    ((r.trees.take i).flatMap (fun t => Block.lines 2 t ++ [Line.empty]) ++
      r.trees[i]?.elim [] (Block.linesBefore number 2 path))

/-- The characters before a statement, with its own indentation. -/
def textBefore (style : Style) (number i : Nat) (path : List Nat) (r : Rules) : List Char :=
  Line.written style.indent (r.linesBefore style number i path) ++
    List.replicate (style.indent * (path.length + 3)) ' '

variable {i number : Nat} {path : List Nat} {u : Tree Block}

theorem exists_render_eq (hu : r.at? (i :: path) = some u) {s : String}
    (hs : u.label.statements[number]? = some s) :
    ∃ after, (r.render style).toList = r.textBefore style number i path ++ s.toList ++ after := by
  obtain ⟨t, ht, hpath⟩ := Option.bind_eq_some_iff.1 hu
  obtain ⟨after, hafter⟩ := @Block.exists_lines_eq 2 number path t u hpath s hs
  have hlines : ∃ rest, r.lines style =
      r.linesBefore style number i path ++ ⟨path.length + 3, s⟩ :: rest := by
    have hdepth : 2 + path.length + 1 = path.length + 3 := by omega
    rw [hdepth] at hafter
    refine ⟨after ++ Line.empty ::
      ((r.trees.drop (i + 1)).flatMap (fun t => Block.lines 2 t ++ [Line.empty]) ++
        r.closingLines), ?_⟩
    have htrees := congrArg (List.flatMap fun t => Block.lines 2 t ++ [Line.empty])
      (eq_take_append_cons ht)
    rw [lines_eq, htrees, List.flatMap_append, List.flatMap_cons, hafter, linesBefore, ht]
    simp only [headLines, pathLine, Option.elim_some, List.append_assoc, List.cons_append,
      List.nil_append]
  obtain ⟨rest, hrest⟩ := hlines
  refine ⟨'\n' :: Line.written style.indent rest, ?_⟩
  rw [toList_render, hrest, Line.written_append, Line.written_cons, Line.toList_render, textBefore]
  simp only [List.append_assoc, List.cons_append, List.nil_append]

theorem braceDepth_textBefore (hversion : Balanced style.version.toList)
    (h : ∀ s ∈ r.texts, Balanced s.toList) (hu : r.at? (i :: path) = some u) :
    braceDepth (r.textBefore style number i path) = path.length + 3 := by
  obtain ⟨t, ht, hpath⟩ := Option.bind_eq_some_iff.1 hu
  have htree : braceDepth (Line.texts (Block.linesBefore number 2 path t)) = path.length + 1 :=
    Block.braceDepth_linesBefore (balancedTree_of_mem h (List.mem_of_getElem? ht)) hpath
  have hbefore := balanced_treeLines h fun t (ht : t ∈ r.trees.take i) => List.mem_of_mem_take ht
  have hblanks (n : Nat) : braceDepth (List.replicate n ' ') = 0 := by
    simp [braceDepth, List.count_replicate]
  rw [textBefore, braceDepth_append, Line.braceDepth_written, linesBefore, ht]
  simp only [Line.texts_append, Line.texts_cons, braceDepth_append, Option.elim_some, htree,
    hbefore.settled, hblanks, (balanced_headLines hversion).settled,
    opens_service.braceDepth_eq, (opens_pathLine h).braceDepth_eq]
  omega

end Rules

/-- If all raw texts of a policy and the version are balanced, so is the written text. Between the
brace of the service and the one of the last line at least one brace is open, and as many are open
before a statement as blocks are around it, the service and the path among them. -/
theorem Policy.render_compile_nesting {style : Style} {p : Policy}
    (hversion : Balanced style.version.toList) (h : ∀ s ∈ p.rawTexts, Balanced s.toList) :
    let text := (p.compile.render style).toList
    let service := '\n' :: Line.written style.indent p.compile.serviceLines
    Balanced text ∧
      (text = Rules.opening style ++ (service ++ [rightBrace, '\n']) ∧
        ∀ u, u <+: service → 1 ≤ braceDepth (Rules.opening style ++ u)) ∧
      ∀ (i : Nat) (path : List Nat) (b : Tree Block) (number : Nat) (s : String),
        p.compile.at? (i :: path) = some b → b.label.statements[number]? = some s →
          (∃ after, text = p.compile.textBefore style number i path ++ s.toList ++ after) ∧
            braceDepth (p.compile.textBefore style number i path) = path.length + 3 := by
  intro text service
  have htexts : ∀ s ∈ p.compile.texts, Balanced s.toList :=
    fun _ hs => Policy.balanced_of_mem_texts_compile h hs
  have hopens := Rules.opens_opening hversion
  have hend : Balanced ['\n'] := by decide
  have hservice : Balanced service :=
    hend.append (Line.balanced_written (Rules.balanced_serviceLines htexts))
  have htext : text = Rules.opening style ++ (service ++ [rightBrace, '\n']) :=
    Rules.toList_render_eq style p.compile
  refine ⟨?_, ⟨htext, fun u hu => ?_⟩, fun i path b number s hb hs => ⟨?_, ?_⟩⟩
  · have hclosed := (hopens.balanced_close hservice).append hend
    rw [htext]
    simpa only [List.append_assoc, List.cons_append, List.nil_append] using hclosed
  · rw [braceDepth_append, hopens.braceDepth_eq]
    have hdepth : 0 ≤ braceDepth u := hservice.nonneg u hu
    omega
  · exact Rules.exists_render_eq hb hs
  · exact Rules.braceDepth_textBefore hversion htexts hb

/-- The statement of a block in a block, with braces in the raw texts. -/
theorem Policy.render_compile_nesting_child :
    let posts : Node :=
      { segment := { collection := "posts", wildcard := "pid", recursive := true }
        allowRules := [{ methods := [.get], conditions := [.raw ("f(" ++ braced "" ++ ")")] }] }
    let users : Node := { segment := { collection := "users", wildcard := "uid" } }
    let p : Policy :=
      { topLevel := "/databases/" ++ braced "database" ++ "/documents"
        trees := [.node users [], .node users [.node posts []]]
        functions := ["function f(x) " ++ braced "\n  return true;\n"] }
    let style : Style := {}
    let before := p.compile.textBefore style 0 1 [0]
    Balanced style.version.toList ∧ (∀ s ∈ p.rawTexts, Balanced s.toList) ∧
      Balanced (p.compile.render style).toList ∧
      (∃ after, (p.compile.render style).toList =
        before ++ ("allow get: if f(" ++ braced "" ++ ");").toList ++ after) ∧
      braceDepth before = 4 := by
  intro posts users p style before
  have hversion : Balanced style.version.toList := by decide
  have htexts : ∀ s ∈ p.rawTexts, Balanced s.toList := by decide
  obtain ⟨hbalanced, -, hstatements⟩ := Policy.render_compile_nesting hversion htexts
  have hblock : p.compile.at? [1, 0] = some (.node (posts.block false) []) := rfl
  have hstatement : (posts.block false).statements[0]? =
      some ("allow get: if f(" ++ braced "" ++ ");") := by
    decide
  exact ⟨hversion, htexts, hbalanced, hstatements 1 [0] _ 0 _ hblock hstatement⟩

end AccessRules
