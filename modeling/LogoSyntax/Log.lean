-- SUMMARY: Log levels, the level filter, and log records.

/-!
# Log

A record has one of five levels. A filter lets through the records up to a
level, or none at all, and it can be raised in steps until it lets everything
through. A record is written on a line of its own, behind its level and the
part of the program it comes from.

A log is written record by record. Whether a record is written is decided when
it is emitted, and `Writer.records_writeAll` says which of some records are.
-/

namespace LogoSyntax.Log

/-- The level of a record, the most severe first. -/
inductive Level where
  | error | warn | info | debug | trace
deriving DecidableEq, Repr

namespace Level

/-- The name of the level in records. -/
def name : Level → String
  | error => "ERROR"
  | warn => "WARN"
  | info => "INFO"
  | debug => "DEBUG"
  | trace => "TRACE"

/-- The place of the level, counted from one. -/
def rank : Level → Nat
  | error => 1
  | warn => 2
  | info => 3
  | debug => 4
  | trace => 5

theorem rank_le (level : Level) : level.rank ≤ 5 := by
  cases level <;> decide

/-- All levels, the most severe first. -/
def all : List Level :=
  [error, warn, info, debug, trace]

end Level

/-- Which records are let through: none, or those up to a level. -/
inductive Filter where
  | off
  | upTo (level : Level)
deriving DecidableEq, Repr

namespace Filter

/-- The name of the filter. -/
def name : Filter → String
  | off => "OFF"
  | upTo level => level.name

/-- The number of levels that the filter lets through. -/
def rank : Filter → Nat
  | off => 0
  | upTo level => level.rank

/-- All filters, the strictest first. -/
def all : List Filter :=
  off :: Level.all.map upTo

/-- The filter with this name in any mixture of upper and lower case. -/
def ofName? (text : String) : Option Filter :=
  all.find? fun filter => filter.name.toList == text.toList.map Char.toUpper

/-- Whether the filter lets a level through. -/
def enables (filter : Filter) (level : Level) : Bool :=
  level.rank ≤ filter.rank

/-- The filter one step up; the last one stays as it is. -/
def next : Filter → Filter
  | off => upTo .error
  | upTo .error => upTo .warn
  | upTo .warn => upTo .info
  | upTo .info => upTo .debug
  | upTo .debug => upTo .trace
  | upTo .trace => upTo .trace

/-- The filter some steps up. -/
def raise (filter : Filter) : Nat → Filter
  | 0 => filter
  | steps + 1 => filter.next.raise steps

theorem rank_next (filter : Filter) : filter.next.rank = min (filter.rank + 1) 5 := by
  rcases filter with _ | level
  · rfl
  · cases level <;> rfl

/-- Raising a filter lets one more level through for each step, up to all five. -/
theorem rank_raise (filter : Filter) (steps : Nat) :
    (filter.raise steps).rank = min (filter.rank + steps) 5 := by
  induction steps generalizing filter with
  | zero =>
    rcases filter with _ | level
    · rfl
    · cases level <;> rfl
  | succ n ih =>
    rw [raise, ih, rank_next]
    omega

end Filter

/-- The part of the program that a record comes from. -/
inductive Source where
  | lexer | grammar | program
deriving DecidableEq, Repr

/-- The path by which records name the part of the program. -/
def Source.path : Source → String
  | .lexer => "lingo::dsl::lexer"
  | .grammar => "lingo::dsl::parser"
  | .program => "lingo"

/-- A log record. -/
structure Record where
  level : Level
  source : Source
  message : String
deriving DecidableEq, Repr

/-- The line that a record is written as. -/
def Record.render (r : Record) : String :=
  "[" ++ r.level.name ++ " " ++ r.source.path ++ "] " ++ r.message

/-! ## Writing -/

/-- A log that is being written. -/
structure Writer where
  filter : Filter
  /-- The records that the filter let through so far, the latest first. -/
  written : List Record
deriving DecidableEq, Repr

namespace Writer

/-- An empty log with a filter. -/
def ofFilter (filter : Filter) : Writer :=
  ⟨filter, []⟩

/-- Writes a record if the filter lets its level through. -/
def write (w : Writer) (r : Record) : Writer :=
  if w.filter.enables r.level then { w with written := r :: w.written } else w

/-- Writes some records, one after another. -/
def writeAll (w : Writer) (rs : List Record) : Writer :=
  rs.foldl write w

/-- The records that were written, the earliest first. -/
def records (w : Writer) : List Record :=
  w.written.reverse

variable (w : Writer) (r : Record) (rs more : List Record)

@[simp] theorem writeAll_nil : w.writeAll [] = w := rfl

@[simp] theorem writeAll_cons : w.writeAll (r :: rs) = (w.write r).writeAll rs := rfl

theorem writeAll_append : w.writeAll (rs ++ more) = (w.writeAll rs).writeAll more :=
  List.foldl_append

@[simp] theorem records_ofFilter (filter : Filter) : (ofFilter filter).records = [] := rfl

@[simp] theorem filter_write : (w.write r).filter = w.filter := by
  unfold write
  split <;> rfl

/-- A record is written if it is among the first levels that the filter lets through. -/
theorem records_write :
    (w.write r).records = w.records ++ [r].filter fun r => decide (r.level.rank ≤ w.filter.rank) := by
  unfold write Filter.enables
  split
  · next h => simp_all [records]
  · next h => simp_all

/-- Records that are written one after another are filtered one after another. -/
theorem records_writeAll :
    (w.writeAll rs).records =
      w.records ++ rs.filter fun r => decide (r.level.rank ≤ w.filter.rank) := by
  induction rs generalizing w with
  | nil => simp
  | cons r rs ih =>
    rw [writeAll_cons, ih, records_write, filter_write, List.append_assoc, ← List.filter_append]
    rfl

/-- The last filter lets everything through. -/
theorem records_writeAll_trace : ((ofFilter (.upTo .trace)).writeAll rs).records = rs := by
  rw [records_writeAll, records_ofFilter, List.nil_append, List.filter_eq_self]
  intro r _
  exact decide_eq_true r.level.rank_le

end Writer

end LogoSyntax.Log
