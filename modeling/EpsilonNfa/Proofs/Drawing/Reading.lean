import EpsilonNfa.Drawing
import EpsilonNfa.Lists
import Mathlib.Data.List.Basic
import Mathlib.Data.List.TakeDrop

/-!
Reading a drawing back. `lines?` takes a text to the lines that it draws: the text is split into rows,
the header and the closing brace have to be in their places, and every row between them is an
indented line. What a line is follows from the row alone, though nothing in it is escaped: a name is
a run of letters and digits, and behind it

    [label="q1" shape=doublecircle]     only a state has a shape
     -> q1                              only the entry has no label
     -> q1[label="ε" style=dashed]      only a silent move has a style
     -> q1[label="a"]                   so this is a letter, whichever it is

A line is `Plain` when its names are such runs and its letter does not break the row. Plain lines are
read back from their text (`lines?_render`), so there is no other way to read it.
-/

namespace EpsilonNfa.Drawing

/-! ### A line -/

/-- A run of letters and digits. -/
def IsName (name : String) : Prop :=
  ∀ c ∈ name.toList, c.isAlphanum = true

/-- A line with names that end where the next sign begins, and with a letter that stays in the row. -/
def Line.Plain : Line → Prop
  | node name _ => IsName name
  | entry name => IsName name
  | edge source symbol target => IsName source ∧ IsName target ∧ symbol ≠ .letter '\n'

/-- What stands between a source and a target. -/
def arrow : List Char :=
  [' ', '-', '>', ' ']

/-- What every label begins with. -/
def labelStart : List Char :=
  ['[', 'l', 'a', 'b', 'e', 'l', '=', '"']

/-- What stands behind the letter of a move. -/
def solid : List Char :=
  ['"', ']']

/-- What stands behind the sign of a silent move. -/
def dashed : List Char :=
  ['"', ' ', 's', 't', 'y', 'l', 'e', '=', 'd', 'a', 's', 'h', 'e', 'd', ']']

/-- The circle of a state. -/
def circle (final : Bool) : List Char :=
  ['"', ' ', 's', 'h', 'a', 'p', 'e', '='] ++
    ((if final then ['d', 'o', 'u', 'b', 'l', 'e'] else []) ++ ['c', 'i', 'r', 'c', 'l', 'e', ']'])

/-- What stands behind the name of a state. -/
def shape (name : String) (final : Bool) : List Char :=
  labelStart ++ (name.toList ++ circle final)

/-- The state of a name and what stands behind it. -/
def node? (name : String) (rest : List Char) : Option Line :=
  if rest = shape name true then some (.node name true)
  else if rest = shape name false then some (.node name false)
  else none

/-- The symbol that the attributes of a move show. -/
def symbol? (attributes : List Char) : Option Symbol :=
  match labelStart.isPrefixOf? attributes with
  | some (c :: rest) =>
    if rest = solid then some (.letter c)
    else if c = Symbol.epsilon.toChar ∧ rest = dashed then some .epsilon
    else none
  | _ => none

/-- The entry or the move of a name and what stands behind the arrow. -/
def pointer? (name : String) (rest : List Char) : Option Line :=
  match rest.span Char.isAlphanum with
  | (target, []) => if name = "entry" then some (.entry (.ofList target)) else none
  | (target, attributes) => (symbol? attributes).map (.edge name · (.ofList target))

/-- The line that a row is, without its indentation. -/
def Line.read? (row : List Char) : Option Line :=
  match row.span Char.isAlphanum with
  | (name, rest) =>
    match arrow.isPrefixOf? rest with
    | some rest => pointer? (.ofList name) rest
    | none => node? (.ofList name) rest

theorem isPrefixOf?_append {α : Type} [BEq α] [LawfulBEq α] (start rest : List α) :
    start.isPrefixOf? (start ++ rest) = some rest :=
  List.isPrefixOf?_eq_some_iff_append_eq.2 rfl

/-- A name ends where something else begins. -/
theorem span_name {name : String} (h : IsName name) (rest : List Char)
    (hrest : ∀ c ∈ rest.head?, c.isAlphanum = false) :
    (name.toList ++ rest).span Char.isAlphanum = (name.toList, rest) := by
  rw [List.span_eq_takeWhile_dropWhile, List.takeWhile_append_of_pos h,
    List.dropWhile_append_of_pos h]
  cases rest with
  | nil => simp
  | cons c rest => simp [hrest c rfl]

theorem node?_shape (name : String) (final : Bool) :
    node? name (shape name final) = some (.node name final) := by
  cases final with
  | true => exact if_pos rfl
  | false =>
    have hne : shape name false ≠ shape name true := by simp [shape, circle]
    rw [node?, if_neg hne, if_pos rfl]

/-- The label of a symbol and what stands behind it. -/
def attributes (symbol : Symbol) : List Char :=
  labelStart ++ symbol.toChar :: if symbol = .epsilon then dashed else solid

theorem symbol?_attributes (symbol : Symbol) : symbol? (attributes symbol) = some symbol := by
  rw [symbol?, attributes, isPrefixOf?_append]
  cases symbol with
  | letter c => simp [Symbol.toChar]
  | epsilon => simp [dashed, solid]

theorem pointer?_entry {name : String} (h : IsName name) :
    pointer? "entry" name.toList = some (.entry name) := by
  have hspan := span_name h [] nofun
  rw [List.append_nil] at hspan
  rw [pointer?, hspan]
  simp

theorem pointer?_edge (source : String) (symbol : Symbol) {target : String} (h : IsName target) :
    pointer? source (target.toList ++ attributes symbol) = some (.edge source symbol target) := by
  have hspan := span_name h (attributes symbol) fun c hc => by
    cases hc
    rfl
  rw [pointer?, hspan]
  show (symbol? (attributes symbol)).map _ = _
  rw [symbol?_attributes, Option.map_some, String.ofList_toList]

/-- A plain line is read back from its row. -/
theorem Line.read?_render {line : Line} (h : line.Plain) :
    Line.read? line.render.toList = some line := by
  have harrow (rest : List Char) : ∀ c ∈ (arrow ++ rest).head?, c.isAlphanum = false := by
    rintro _ ⟨⟩
    rfl
  cases line with
  | node name final =>
    have hrow : (node name final).render.toList = name.toList ++ shape name final := by
      cases final <;> simp [render, shape, circle, labelStart]
    have hspan := span_name h (shape name final) fun c hc => by
      cases hc
      rfl
    have hnone : arrow.isPrefixOf? (shape name final) = none := rfl
    simp only [hrow, read?, hspan, hnone, String.ofList_toList, node?_shape]
  | entry name =>
    have hrow : (entry name).render.toList = "entry".toList ++ (arrow ++ name.toList) := by
      simp [render, arrow]
    have hentry : IsName "entry" := List.all_eq_true.1 rfl
    have hspan := span_name hentry _ (harrow name.toList)
    simp only [hrow, read?, hspan, isPrefixOf?_append, String.ofList_toList, pointer?_entry h]
  | edge source symbol target =>
    obtain ⟨hsource, htarget, -⟩ := h
    have hrow : (edge source symbol target).render.toList =
        source.toList ++ (arrow ++ (target.toList ++ attributes symbol)) := by
      cases symbol <;> simp [render, attributes, labelStart, arrow, dashed, solid]
    have hspan := span_name hsource _ (harrow (target.toList ++ attributes symbol))
    simp only [hrow, read?, hspan, isPrefixOf?_append, String.ofList_toList,
      pointer?_edge source symbol htarget]

/-! ### A text -/

/-- A row with its indentation. -/
def indentedRow (row : String) : List Char :=
  ' ' :: ' ' :: row.toList

/-- The rows that every drawing begins with. -/
def opening : List (List Char) :=
  "digraph NFA \x7b".toList :: header.map indentedRow

/-- The rows between the first ones and the last one. -/
def body (lines : List Line) : List (List Char) :=
  lines.map fun line => indentedRow line.render

/-- The last row. -/
def closing : List Char :=
  ['}']

/-- The line that an indented row is. -/
def indented? : List Char → Option Line
  | ' ' :: ' ' :: row => Line.read? row
  | _ => none

/-- The lines that a text draws. -/
def lines? (text : String) : Option (List Line) :=
  match opening.isPrefixOf? (text.toList.splitOn '\n') with
  | some rows =>
    if rows.dropWhile (· ≠ closing) = [closing, []] then
      (rows.takeWhile (· ≠ closing)).mapM indented?
    else none
  | none => none

/-- Rows that are ended by line breaks are found again, with nothing behind the last break. -/
theorem splitOn_flatMap {rows : List (List Char)} (h : ∀ row ∈ rows, '\n' ∉ row) :
    (rows.flatMap (· ++ ['\n'])).splitOn '\n' = rows ++ [[]] := by
  induction rows with
  | nil => rfl
  | cons row rows ih =>
    have hrow : ∀ c ∈ row, (c == '\n') = false := by
      intro c hc
      refine beq_eq_false_iff_ne.2 ?_
      rintro rfl
      exact h row List.mem_cons_self hc
    have hrest := ih fun r hr => h r (List.mem_cons_of_mem row hr)
    rw [List.splitOn] at hrest ⊢
    rw [List.flatMap_cons, List.append_assoc, List.singleton_append,
      List.splitOnP_append_cons_of_forall_mem hrow '\n' rfl, hrest, List.cons_append]

theorem toList_render (lines : List Line) : (render lines).toList =
    (opening ++ (body lines ++ [closing])).flatMap (· ++ ['\n']) := by
  have hindented (row : String) : (indented row).toList = indentedRow row ++ ['\n'] := by
    simp [indented, indentedRow]
  have hrows (rows : List String) : (String.join (rows.map indented)).toList =
      (rows.map indentedRow).flatMap (· ++ ['\n']) := by
    simp only [String.toList_join, List.flatMap_map, hindented]
  have hfirst : "digraph NFA \x7b\n".toList = "digraph NFA \x7b".toList ++ ['\n'] := by simp
  have hlast : "\x7d\n".toList = closing ++ ['\n'] := by simp [closing]
  show ("digraph NFA \x7b\n" ++ String.join ((header ++ lines.map Line.render).map indented) ++
    "\x7d\n").toList = _
  simp only [String.toList_append, hrows, hfirst, hlast]
  simp only [opening, body, List.map_append, List.flatMap_append, List.flatMap_cons,
    List.flatMap_nil, List.append_nil, List.append_assoc, List.cons_append, List.map_map,
    Function.comp_def]

theorem not_mem_of_isName {name : String} (h : IsName name) : '\n' ∉ name.toList := by
  intro hmem
  have := h _ hmem
  cases this

/-- A plain line stays in its row. -/
theorem Line.Plain.not_mem {line : Line} (h : line.Plain) : '\n' ∉ line.render.toList := by
  cases line with
  | node name final =>
    have := not_mem_of_isName h
    cases final <;> simp [render, this]
  | entry name => simp [render, not_mem_of_isName h]
  | edge source symbol target =>
    obtain ⟨hsource, htarget, hsymbol⟩ := h
    have hsource := not_mem_of_isName hsource
    have htarget := not_mem_of_isName htarget
    cases symbol with
    | letter c =>
      have hc : '\n' ≠ c := by
        rintro rfl
        exact hsymbol rfl
      simp [render, Symbol.toChar, hsource, htarget, hc]
    | epsilon => simp [render, Symbol.toChar, hsource, htarget]

theorem not_mem_of_mem_rows {lines : List Line} (h : ∀ line ∈ lines, line.Plain) :
    ∀ row ∈ opening ++ (body lines ++ [closing]), '\n' ∉ row := by
  have hopening : ∀ row ∈ opening, '\n' ∉ row := by simp [opening, header, indentedRow]
  intro row hrow
  rcases List.mem_append.1 hrow with hrow | hrow
  · exact hopening row hrow
  rcases List.mem_append.1 hrow with hrow | hrow
  · obtain ⟨line, hline, rfl⟩ := List.mem_map.1 hrow
    simp [indentedRow, (h line hline).not_mem]
  · rw [List.mem_singleton.1 hrow]
    decide

/-- Plain lines are read back from the text that draws them. -/
theorem lines?_render {lines : List Line} (h : ∀ line ∈ lines, line.Plain) :
    lines? (render lines) = some lines := by
  have hbody : ∀ row ∈ body lines, decide (row ≠ closing) = true := by
    intro row hrow
    obtain ⟨line, -, rfl⟩ := List.mem_map.1 hrow
    -- the closing brace is not indented
    exact decide_eq_true nofun
  have hdrop : (body lines ++ [closing, []]).dropWhile (· ≠ closing) = [closing, []] := by
    rw [List.dropWhile_append_of_pos hbody]
    rfl
  have htake : (body lines ++ [closing, []]).takeWhile (· ≠ closing) = body lines := by
    rw [List.takeWhile_append_of_pos hbody]
    exact List.append_nil _
  have hread : (body lines).mapM indented? = some lines :=
    mapM_map_of_forall fun line hline => Line.read?_render (h line hline)
  rw [lines?, toList_render, splitOn_flatMap (not_mem_of_mem_rows h), List.append_assoc,
    isPrefixOf?_append, List.append_assoc]
  show (if (body lines ++ [closing, []]).dropWhile (· ≠ closing) = [closing, []] then
    ((body lines ++ [closing, []]).takeWhile (· ≠ closing)).mapM indented? else none) = _
  rw [if_pos hdrop, htake, hread]

end EpsilonNfa.Drawing
