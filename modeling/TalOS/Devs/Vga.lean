-- SUMMARY: The text screen of `devs/vga.c`: the cursor, what is stored where, and what a printed text looks like.
import Mathlib.Logic.Function.Basic
import TalOS.Libk.Stdout

/-!
# `devs/vga.c`

The screen is an array of 25 rows of 80 cells. A character is stored at the cursor, which
goes on to the next cell; behind the last cell comes the first one again, nothing scrolls.
-/

namespace TalOS

open Bounded

/-! ## The functions -/

def VGA_COLS : Nat := 80
def VGA_ROWS : Nat := 25

def VGA_COLOR_BLACK : UInt8 := 0
def VGA_COLOR_LIGHT_GREY : UInt8 := 7

def CARRIAGE_RETURN : UInt8 := 0x0D
def LINE_FEED : UInt8 := 0x0A

/-- `vga_entry_color` -/
def vgaEntryColor (fg bg : UInt8) : UInt8 := fg ||| bg <<< 4

/-- `vga_entry` -/
def vgaEntry (uc color : UInt8) : UInt16 := uc.toUInt16 ||| color.toUInt16 <<< 8

/-- The static variables, and the memory behind `vga_buffer`. The cursor is on the screen. -/
structure Vga where
  row : Nat
  column : Nat
  color : UInt8
  buffer : Nat → UInt16
  row_lt : row < VGA_ROWS
  column_lt : column < VGA_COLS

/-- `if (++vga_row == VGA_HEIGHT) vga_row = 0` -/
def nextRow (row : Nat) : Nat := if row + 1 = VGA_ROWS then 0 else row + 1

theorem nextRow_lt {row : Nat} (h : row < VGA_ROWS) : nextRow row < VGA_ROWS := by
  unfold nextRow VGA_ROWS at *
  split <;> omega

/-- `vga_putentryat` -/
def vgaPutentryat (c color : UInt8) (x y : Nat) (buffer : Nat → UInt16) : Nat → UInt16 :=
  Function.update buffer (y * VGA_COLS + x) (vgaEntry c color)

/-- `vga_putchar` -/
def Vga.putchar (v : Vga) (c : UInt8) : Vga :=
  if c = CARRIAGE_RETURN then { v with column := 0, column_lt := by decide }
  else if c = LINE_FEED then
    { v with column := 0, row := nextRow v.row, column_lt := by decide, row_lt := nextRow_lt v.row_lt }
  else if h : v.column + 1 = VGA_COLS then
    { v with
      buffer := vgaPutentryat c v.color v.column v.row v.buffer
      column := 0
      row := nextRow v.row
      column_lt := by decide
      row_lt := nextRow_lt v.row_lt }
  else
    { v with
      buffer := vgaPutentryat c v.color v.column v.row v.buffer
      column := v.column + 1
      column_lt := Nat.lt_of_le_of_ne v.column_lt h }

/-- `vga_write` -/
def Vga.write (v : Vga) (data : List UInt8) : Vga := data.foldl Vga.putchar v

/-- The loops of `vga_flush`. -/
def flushBuffer (color : UInt8) (buffer : Nat → UInt16) : Nat → UInt16 :=
  (List.range VGA_ROWS).foldl
    (fun b y => (List.range VGA_COLS).foldl (fun b x => vgaPutentryat SPACE color x y b) b) buffer

/-- `vga_flush` -/
def Vga.flush (v : Vga) : Vga :=
  { v with
    buffer := flushBuffer v.color v.buffer
    column := 0
    row := 0
    column_lt := by decide
    row_lt := by decide }

/-- `vga_setcolor` -/
def Vga.setcolor (v : Vga) (color : UInt8) : Vga := { v with color := color }

/-- `vga_initialize` -/
def Vga.initialized (v : Vga) : Vga :=
  (v.setcolor (vgaEntryColor VGA_COLOR_LIGHT_GREY VGA_COLOR_BLACK)).flush

/-- `vga_fs_write` for a node, if there is one. -/
def vgaFsWrite (node : Option UInt64) (v : Vga) (buf : List UInt8) : Vga × Int :=
  match node with
  | none => (v, -1)
  | some _ => (v.write buf, 0)

/-- A call of one of the functions. -/
inductive VgaCall where
  | init
  | setcolor (color : UInt8)
  | flush
  | putchar (c : UInt8)
  | write (data : List UInt8)
  deriving Repr, DecidableEq

def Vga.call (v : Vga) : VgaCall → Vga
  | .init => v.initialized
  | .setcolor color => v.setcolor color
  | .flush => v.flush
  | .putchar c => v.putchar c
  | .write data => v.write data

/-! ## The screen as a ring of cells -/

/-- Rows times columns. -/
abbrev CELLS : Nat := 2000

/-- The cells in one ring, and the place of the cursor. -/
structure Screen where
  pos : Fin CELLS
  color : UInt8
  cell : Fin CELLS → UInt16

/-- The first cell of the row of a cell. -/
def rowStart (pos : Fin CELLS) : Fin CELLS :=
  ⟨pos / VGA_COLS * VGA_COLS, Nat.lt_of_le_of_lt (Nat.div_mul_le_self _ _) pos.isLt⟩

/-- Some cells further on, around the ring. -/
def onwards (pos : Fin CELLS) (n : Nat) : Fin CELLS := ⟨(pos + n) % CELLS, Nat.mod_lt _ (by decide)⟩

def Screen.putchar (s : Screen) (c : UInt8) : Screen :=
  if c = CARRIAGE_RETURN then { s with pos := rowStart s.pos }
  else if c = LINE_FEED then { s with pos := onwards (rowStart s.pos) VGA_COLS }
  else { s with cell := Function.update s.cell s.pos (vgaEntry c s.color), pos := onwards s.pos 1 }

def Screen.write (s : Screen) (data : List UInt8) : Screen := data.foldl Screen.putchar s

def Screen.flush (s : Screen) : Screen := { s with pos := ⟨0, by decide⟩, cell := fun _ => vgaEntry SPACE s.color }

def Screen.call (s : Screen) : VgaCall → Screen
  | .init => Screen.flush { s with color := vgaEntryColor VGA_COLOR_LIGHT_GREY VGA_COLOR_BLACK }
  | .setcolor color => { s with color := color }
  | .flush => s.flush
  | .putchar c => s.putchar c
  | .write data => s.write data

/-- The index of the cursor. -/
def Vga.index (v : Vga) : Nat := v.row * VGA_COLS + v.column

theorem Vga.index_lt (v : Vga) : v.index < CELLS := by
  have hrow := v.row_lt
  have hcolumn := v.column_lt
  unfold index
  unfold VGA_ROWS at hrow
  unfold VGA_COLS at hcolumn ⊢
  unfold CELLS
  omega

def Vga.screen (v : Vga) : Screen := ⟨⟨v.index, v.index_lt⟩, v.color, fun i => v.buffer i⟩

theorem Screen.ext' {s s' : Screen} (hpos : s.pos.val = s'.pos.val) (hcolor : s.color = s'.color)
    (hcell : s.cell = s'.cell) : s = s' := by
  obtain ⟨pos, color, cell⟩ := s
  obtain ⟨pos', color', cell'⟩ := s'
  obtain rfl := Fin.ext hpos
  cases hcolor
  cases hcell
  rfl

variable {v : Vga} {c : UInt8}

theorem Vga.rowStart_screen (v : Vga) : (rowStart v.screen.pos).val = v.row * VGA_COLS := by
  have hcolumn := v.column_lt
  show (v.row * VGA_COLS + v.column) / VGA_COLS * VGA_COLS = v.row * VGA_COLS
  unfold VGA_COLS at hcolumn ⊢
  omega

theorem nextRow_cells {row : Nat} (h : row < VGA_ROWS) :
    nextRow row * VGA_COLS = (row * VGA_COLS + VGA_COLS) % CELLS := by
  unfold nextRow
  unfold VGA_ROWS at h ⊢
  unfold VGA_COLS CELLS
  split <;> omega

/-- The character at the cursor is a cell of the screen. -/
theorem Vga.putentryat_screen (v : Vga) (c : UInt8) :
    (fun i : Fin CELLS => vgaPutentryat c v.color v.column v.row v.buffer i) =
      Function.update v.screen.cell v.screen.pos (vgaEntry c v.color) := by
  funext i
  by_cases h : i = v.screen.pos
  · subst h
    rw [Function.update_self]
    exact Function.update_self _ _ _
  · rw [Function.update_of_ne h]
    exact Function.update_of_ne (fun heq => h (Fin.ext heq)) _ _

theorem Vga.putchar_screen (v : Vga) (c : UInt8) : (v.putchar c).screen = v.screen.putchar c := by
  unfold putchar Screen.putchar
  by_cases hcr : c = CARRIAGE_RETURN
  · rw [if_pos hcr, if_pos hcr]
    exact Screen.ext' v.rowStart_screen.symm rfl rfl
  rw [if_neg hcr, if_neg hcr]
  by_cases hlf : c = LINE_FEED
  · rw [if_pos hlf, if_pos hlf]
    refine Screen.ext' ?_ rfl rfl
    show nextRow v.row * VGA_COLS = ((rowStart v.screen.pos).val + VGA_COLS) % CELLS
    rw [v.rowStart_screen]
    exact nextRow_cells v.row_lt
  rw [if_neg hlf, if_neg hlf]
  have hrow := v.row_lt
  have hcolumn := v.column_lt
  split
  case isTrue hlast =>
    refine Screen.ext' ?_ rfl (v.putentryat_screen c)
    show nextRow v.row * VGA_COLS + 0 = (v.row * VGA_COLS + v.column + 1) % CELLS
    rw [Nat.add_assoc, hlast, Nat.add_zero]
    exact nextRow_cells hrow
  case isFalse hmore =>
    refine Screen.ext' ?_ rfl (v.putentryat_screen c)
    show v.row * VGA_COLS + (v.column + 1) = (v.row * VGA_COLS + v.column + 1) % CELLS
    unfold VGA_ROWS at hrow
    unfold VGA_COLS at hcolumn hmore ⊢
    unfold CELLS
    omega

theorem Vga.write_screen (v : Vga) (data : List UInt8) : (v.write data).screen = v.screen.write data := by
  induction data generalizing v with
  | nil => rfl
  | cons c data ih =>
    show ((v.putchar c).write data).screen = (v.screen.putchar c).write data
    rw [ih, v.putchar_screen]

/-! ## Filling the screen -/

theorem foldl_update (l : List Nat) (f : Nat → Nat) (value : UInt16) (b : Nat → UInt16) (i : Nat) :
    (l.foldl (fun b x => Function.update b (f x) value) b) i = if ∃ x ∈ l, i = f x then value else b i := by
  induction l generalizing b with
  | nil => simp
  | cons x l ih =>
    rw [List.foldl_cons, ih]
    by_cases hl : ∃ y ∈ l, i = f y
    · rw [if_pos hl, if_pos (by simp [hl])]
    · rw [if_neg hl]
      by_cases hx : i = f x
      · rw [hx, Function.update_self, if_pos (by simp)]
      · rw [Function.update_of_ne hx, if_neg (by simp [hx, hl])]

theorem flushRow_apply (color : UInt8) (y : Nat) (b : Nat → UInt16) (i : Nat) :
    ((List.range VGA_COLS).foldl (fun b x => vgaPutentryat SPACE color x y b) b) i =
      if i / VGA_COLS = y then vgaEntry SPACE color else b i := by
  have hrow : (∃ x ∈ List.range VGA_COLS, i = y * VGA_COLS + x) ↔ i / VGA_COLS = y := by
    simp only [List.mem_range]
    unfold VGA_COLS
    constructor
    · rintro ⟨x, hx, rfl⟩
      omega
    · intro h
      exact ⟨i % 80, Nat.mod_lt _ (by decide), by omega⟩
  have hfold := foldl_update (List.range VGA_COLS) (fun x => y * VGA_COLS + x) (vgaEntry SPACE color) b i
  simp only [hrow] at hfold
  exact hfold

theorem flushRows_apply (color : UInt8) (n : Nat) (b : Nat → UInt16) (i : Nat) :
    ((List.range n).foldl
      (fun b y => (List.range VGA_COLS).foldl (fun b x => vgaPutentryat SPACE color x y b) b) b) i =
      if i / VGA_COLS < n then vgaEntry SPACE color else b i := by
  induction n with
  | zero => rw [List.range_zero, List.foldl_nil, if_neg (Nat.not_lt_zero _)]
  | succ n ih =>
    rw [List.range_succ, List.foldl_concat, flushRow_apply, ih]
    by_cases heq : i / VGA_COLS = n
    · rw [if_pos heq, if_pos (by omega)]
    · by_cases hlt : i / VGA_COLS < n
      · rw [if_neg heq, if_pos hlt, if_pos (by omega)]
      · rw [if_neg heq, if_neg hlt, if_neg (by omega)]

theorem flushBuffer_apply (color : UInt8) (b : Nat → UInt16) (i : Nat) :
    flushBuffer color b i = if i < CELLS then vgaEntry SPACE color else b i := by
  have hcells : i / VGA_COLS < VGA_ROWS ↔ i < CELLS := by
    unfold VGA_COLS VGA_ROWS CELLS
    omega
  unfold flushBuffer
  rw [flushRows_apply]
  simp only [hcells]

theorem Vga.flush_screen (v : Vga) : v.flush.screen = v.screen.flush := by
  refine Screen.ext' rfl rfl ?_
  funext i
  show flushBuffer v.color v.buffer i = vgaEntry SPACE v.color
  rw [flushBuffer_apply, if_pos i.isLt]

/-! ## Runs -/

theorem Vga.call_screen (v : Vga) (call : VgaCall) : (v.call call).screen = v.screen.call call := by
  cases call with
  | init => exact (v.setcolor _).flush_screen
  | setcolor color => rfl
  | flush => exact v.flush_screen
  | putchar c => exact v.putchar_screen c
  | write data => exact v.write_screen data

/-- Nothing is stored behind the last cell. -/
theorem Vga.putchar_outside (v : Vga) (c : UInt8) {i : Nat} (hi : CELLS ≤ i) : (v.putchar c).buffer i = v.buffer i := by
  have hne : i ≠ v.index := fun h => absurd v.index_lt (by omega)
  unfold putchar
  split
  · rfl
  · split
    · rfl
    · split <;> exact Function.update_of_ne hne _ _

theorem Vga.write_outside (v : Vga) (data : List UInt8) {i : Nat} (hi : CELLS ≤ i) :
    (v.write data).buffer i = v.buffer i := by
  induction data generalizing v with
  | nil => rfl
  | cons c data ih =>
    show ((v.putchar c).write data).buffer i = v.buffer i
    rw [ih, v.putchar_outside c hi]

theorem Vga.flush_outside (v : Vga) {i : Nat} (hi : CELLS ≤ i) : v.flush.buffer i = v.buffer i := by
  show flushBuffer v.color v.buffer i = v.buffer i
  rw [flushBuffer_apply, if_neg (Nat.not_lt.mpr hi)]

theorem Vga.call_outside (v : Vga) (call : VgaCall) {i : Nat} (hi : CELLS ≤ i) :
    (v.call call).buffer i = v.buffer i := by
  cases call with
  | init => exact (v.setcolor _).flush_outside hi
  | setcolor color => rfl
  | flush => exact v.flush_outside hi
  | putchar c => exact v.putchar_outside c hi
  | write data => exact v.write_outside data hi

/-- Neither a carriage return nor a line feed. -/
def Plain (line : List UInt8) : Prop := ∀ c ∈ line, c ≠ CARRIAGE_RETURN ∧ c ≠ LINE_FEED

/-- The text of some lines. -/
def linesText (lines : List (List UInt8)) : List UInt8 := lines.flatMap (· ++ [LINE_FEED])

theorem Vga.write_append (v : Vga) (data data' : List UInt8) : v.write (data ++ data') = (v.write data).write data' :=
  List.foldl_append

/-- A piece of a line that ends before the last column. -/
theorem Vga.write_plain (v : Vga) {line : List UInt8} (hplain : Plain line)
    (hfits : v.column + line.length < VGA_COLS) :
    (v.write line).row = v.row ∧ (v.write line).column = v.column + line.length ∧
      (v.write line).color = v.color ∧
      (v.write line).buffer = Memory.writeAt v.buffer v.index (line.map (vgaEntry · v.color)) := by
  induction line generalizing v with
  | nil => exact ⟨rfl, rfl, rfl, (Memory.writeAt_nil _ _).symm⟩
  | cons c line ih =>
    obtain ⟨⟨hcr, hlf⟩, hplain⟩ := List.forall_mem_cons.mp hplain
    rw [List.length_cons] at hfits
    have hmore : v.column + 1 ≠ VGA_COLS := by omega
    have hput : v.putchar c = { v with
        buffer := vgaPutentryat c v.color v.column v.row v.buffer
        column := v.column + 1
        column_lt := Nat.lt_of_le_of_ne v.column_lt hmore } := by
      unfold putchar
      rw [if_neg hcr, if_neg hlf, dif_neg hmore]
    obtain ⟨hrow, hcolumn, hcolor, hbuffer⟩ := ih (v.putchar c) hplain (by rw [hput]; dsimp only; omega)
    show ((v.putchar c).write line).row = _ ∧ ((v.putchar c).write line).column = _ ∧
      ((v.putchar c).write line).color = _ ∧ ((v.putchar c).write line).buffer = _
    rw [hrow, hcolumn, hcolor, hbuffer, hput]
    refine ⟨rfl, by dsimp only; rw [List.length_cons]; omega, rfl, ?_⟩
    have hone : vgaPutentryat c v.color v.column v.row v.buffer =
        Memory.writeAt v.buffer v.index [vgaEntry c v.color] := (Memory.writeAt_singleton _ _ _).symm
    show Memory.writeAt (vgaPutentryat c v.color v.column v.row v.buffer) (v.row * VGA_COLS + (v.column + 1)) _ = _
    rw [hone, List.map_cons]
    exact Memory.writeAt_append v.buffer v.index [vgaEntry c v.color] _

/-- What is in a cell after some lines have been written from the start of a row on. -/
def lineCell (color : UInt8) (buffer : Nat → UInt16) (row : Nat) (lines : List (List UInt8)) (y x : Nat) : UInt16 :=
  if row ≤ y then
    ((lines[y - row]?.bind (·[x]?)).map (vgaEntry · color)).getD (buffer (y * VGA_COLS + x))
  else buffer (y * VGA_COLS + x)

/-- A line of fewer characters than a row has, written from the start of a row on. -/
theorem Vga.write_line (v : Vga) {line : List UInt8} (hplain : Plain line) (hshort : line.length < VGA_COLS)
    (hcolumn : v.column = 0) :
    (v.write (line ++ [LINE_FEED])).row = nextRow v.row ∧ (v.write (line ++ [LINE_FEED])).column = 0 ∧
      (v.write (line ++ [LINE_FEED])).color = v.color ∧
      ∀ y x, x < VGA_COLS →
        (v.write (line ++ [LINE_FEED])).buffer (y * VGA_COLS + x) = lineCell v.color v.buffer v.row [line] y x := by
  obtain ⟨hrow, -, hcolor, hbuffer⟩ := v.write_plain hplain (by rw [hcolumn, Nat.zero_add]; exact hshort)
  have hnewline : (v.write line).putchar LINE_FEED = { v.write line with
      column := 0
      row := nextRow (v.write line).row
      column_lt := by decide
      row_lt := nextRow_lt (v.write line).row_lt } := by
    unfold putchar
    rw [if_neg (by decide), if_pos rfl]
  rw [v.write_append]
  show ((v.write line).putchar LINE_FEED).row = _ ∧ ((v.write line).putchar LINE_FEED).column = 0 ∧
    ((v.write line).putchar LINE_FEED).color = _ ∧ ∀ y x, x < VGA_COLS →
      ((v.write line).putchar LINE_FEED).buffer _ = _
  rw [hnewline]
  refine ⟨congrArg nextRow hrow, rfl, hcolor, fun y x hx => ?_⟩
  show (v.write line).buffer (y * VGA_COLS + x) = _
  have hindex : v.index = v.row * VGA_COLS := by rw [index, hcolumn, Nat.add_zero]
  rw [hbuffer, hindex]
  unfold lineCell
  unfold VGA_COLS at hx hshort ⊢
  rcases Nat.lt_trichotomy y v.row with hlt | rfl | hgt
  · rw [if_neg (by omega), Memory.writeAt_of_lt _ (by omega)]
  · rw [if_pos (Nat.le_refl _), Nat.sub_self, List.getElem?_cons_zero, Option.bind_some]
    by_cases hin : x < line.length
    · rw [Memory.writeAt_getElem (by rw [List.length_map]; exact hin), List.getElem_map,
        List.getElem?_eq_getElem hin]
      rfl
    · rw [Memory.writeAt_of_ge (by rw [List.length_map]; omega), List.getElem?_eq_none (by omega)]
      rfl
  · have hnone : [line][y - v.row]? = none := List.getElem?_eq_none (by rw [List.length_singleton]; omega)
    rw [if_pos (by omega), hnone, Memory.writeAt_of_ge (by rw [List.length_map]; omega)]
    rfl

theorem Vga.write_lines (v : Vga) {lines : List (List UInt8)} (hplain : ∀ line ∈ lines, Plain line)
    (hshort : ∀ line ∈ lines, line.length < VGA_COLS) (hcolumn : v.column = 0)
    (hrows : v.row + lines.length ≤ VGA_ROWS) {y x : Nat} (hx : x < VGA_COLS) :
    (v.write (linesText lines)).buffer (y * VGA_COLS + x) = lineCell v.color v.buffer v.row lines y x := by
  induction lines generalizing v with
  | nil =>
    unfold lineCell
    simp [linesText, write]
  | cons line lines ih =>
    obtain ⟨hline, hplain⟩ := List.forall_mem_cons.mp hplain
    obtain ⟨hlen, hshort⟩ := List.forall_mem_cons.mp hshort
    rw [List.length_cons] at hrows
    obtain ⟨hrow, hcolumn', hcolor, hbuffer⟩ := v.write_line hline hlen hcolumn
    have hsplit : v.write (linesText (line :: lines)) = (v.write (line ++ [LINE_FEED])).write (linesText lines) := by
      rw [linesText, List.flatMap_cons, v.write_append]
      rfl
    rw [hsplit]
    cases lines with
    | nil => exact hbuffer y x hx
    | cons line' lines =>
      have hnext : (v.write (line ++ [LINE_FEED])).row = v.row + 1 := by
        rw [List.length_cons] at hrows
        rw [hrow, nextRow, if_neg (by omega)]
      rw [ih _ hplain hshort hcolumn' (by rw [hnext]; omega), hnext, hcolor]
      unfold lineCell
      rw [hbuffer y x hx]
      unfold lineCell
      rcases Nat.lt_trichotomy y v.row with hlt | rfl | hgt
      · rw [if_neg (by omega), if_neg (by omega), if_neg (by omega)]
      · rw [if_neg (by omega), if_pos (Nat.le_refl _), if_pos (Nat.le_refl _), Nat.sub_self]
        rfl
      · have hindex : y - v.row = y - (v.row + 1) + 1 := by omega
        have hnone : [line][y - v.row]? = none := List.getElem?_eq_none (by rw [List.length_singleton]; omega)
        rw [if_pos (by omega), if_pos (by omega), if_pos (by omega), hnone, hindex, List.getElem?_cons_succ]
        rfl

/-! ## Printing to the screen -/

/-- The screen as a place to which the formatter copies its pieces. -/
def vgaSink : Sink Vga UInt8 where
  copy v _ data := v.write data
  copy_nil _ _ := rfl
  copy_append v _ data data' := (v.write_append data data').symm

theorem length_linesText {lines : List (List UInt8)} (hshort : ∀ line ∈ lines, line.length < VGA_COLS) :
    (linesText lines).length ≤ lines.length * VGA_COLS := by
  induction lines with
  | nil => exact Nat.zero_le _
  | cons line lines ih =>
    obtain ⟨hlen, hshort⟩ := List.forall_mem_cons.mp hshort
    have hrest := ih hshort
    rw [linesText, List.flatMap_cons, List.length_append, List.length_append, List.length_singleton,
      List.length_cons, Nat.succ_mul]
    unfold linesText at hrest
    omega

/-- With the screen as stdout, a printed text of at most 25 lines, each shorter than a row, is on the fresh screen
line by line, with blanks behind each line and below the last one; nothing outside the screen is stored to. -/
theorem printf_vga_lines (beyond : Nat) (format : List UInt8) (parameters : List Arg) (lines : List (List UInt8))
    (node : UInt64) (v : Vga) (htext : rendering beyond format parameters = some (linesText lines))
    (hplain : ∀ line ∈ lines, Plain line) (hshort : ∀ line ∈ lines, line.length < VGA_COLS)
    (hcount : lines.length ≤ VGA_ROWS) :
    ∃ o, printf (vgaFsWrite (some node)) beyond format parameters ⟨v.initialized, []⟩ =
        some (o, ((linesText lines).length : Int)) ∧
      (∀ y < VGA_ROWS, ∀ x < VGA_COLS, o.device.buffer (y * VGA_COLS + x) =
        vgaEntry ((lines.getD y []).getD x SPACE) (vgaEntryColor VGA_COLOR_LIGHT_GREY VGA_COLOR_BLACK)) ∧
      ∀ i, VGA_ROWS * VGA_COLS ≤ i → o.device.buffer i = v.buffer i := by
  have hlength : (linesText lines).length < INT_MAX - 1 := by
    have hle := length_linesText hshort
    have hmul := Nat.mul_le_mul_right VGA_COLS hcount
    exact Nat.lt_of_le_of_lt (Nat.le_trans hle hmul) (by decide)
  have haccepts (d : Vga) (bytes : List UInt8) : 0 ≤ (vgaFsWrite (some node) d bytes).2 := Int.le_refl 0
  obtain ⟨sent, hprintf⟩ := printf_device haccepts (S := vgaSink) (fun _ _ _ => rfl) htext hlength
    ⟨v.initialized, []⟩
  refine ⟨_, hprintf, fun y hy x hx => ?_, fun i hi => ?_⟩
  · show (v.initialized.write (linesText lines)).buffer (y * VGA_COLS + x) = _
    have hrow : v.initialized.row = 0 := rfl
    rw [v.initialized.write_lines hplain hshort rfl (by omega) hx, lineCell, hrow, if_pos (Nat.zero_le y)]
    have hblank : v.initialized.buffer (y * VGA_COLS + x) = vgaEntry SPACE v.initialized.color := by
      show flushBuffer _ _ _ = _
      rw [flushBuffer_apply, if_pos]
      · rfl
      · unfold VGA_ROWS at hy
        unfold VGA_COLS at hx ⊢
        unfold CELLS
        omega
    show ((lines[y - 0]?.bind (·[x]?)).map (vgaEntry · v.initialized.color)).getD _ =
      vgaEntry _ v.initialized.color
    rw [hblank, Nat.sub_zero, List.getD_eq_getElem?_getD, List.getD_eq_getElem?_getD]
    cases lines[y]? with
    | none => rfl
    | some cells =>
      rw [Option.bind_some, Option.getD_some]
      cases cells[x]? with
      | none => rfl
      | some c => rfl
  · show (v.initialized.write (linesText lines)).buffer i = v.buffer i
    rw [v.initialized.write_outside _ hi]
    exact (v.setcolor _).flush_outside hi

/-- `%d\n` with 42 on a screen that is all 1 before. -/
theorem printf_vga_lines_number :
    ∃ o, printf (vgaFsWrite (some 0)) 0 [0x25, 0x64, 0x0A] [.word 42]
        ⟨(Vga.mk 0 0 0 (fun _ => 1) (by decide) (by decide)).initialized, []⟩ = some (o, 3) ∧
      (∀ y < VGA_ROWS, ∀ x < VGA_COLS, o.device.buffer (y * VGA_COLS + x) =
        vgaEntry (([[0x34, 0x32]].getD y []).getD x SPACE) (vgaEntryColor VGA_COLOR_LIGHT_GREY VGA_COLOR_BLACK)) ∧
      ∀ i, VGA_ROWS * VGA_COLS ≤ i → o.device.buffer i = 1 :=
  printf_vga_lines 0 [0x25, 0x64, 0x0A] [.word 42] [[0x34, 0x32]] 0 (Vga.mk 0 0 0 (fun _ => 1) (by decide) (by decide))
    (by decide) (by simp [Plain, CARRIAGE_RETURN, LINE_FEED]) (by decide) (by decide)

end TalOS
