import CxxFramework.Basic.GetWord

/-!
# Config files

`ParseConfigFile` reads a file piece by piece and calls a setter for each line with the name and
the values on it. `none` stands for an access outside of a buffer, and for an `Assert` that
fails where the program is built with them.

The setter works on its user data; it returns `true` where it could not set the parameter.
-/

namespace CxxFramework.Basic

open CxxFramework.Core Buffer

def kConfParserMaxParamSize : Nat := 512
def kConfParserMaxLineSize : Nat := 1024
def kConfParserMaxParamValues : Nat := 10

/-- `TrimLeft`, which compares a signed character. -/
def trimLeft : Bytes → Option Bytes
  | [] => none
  | c :: tmp => if (c ≤ 32 ∨ 127 < c) ∧ c ≠ 0 then trimLeft tmp else some (c :: tmp)

/-- At most `n` characters up to the end of a line: what is read, what is left of the file, and
whether its end was hit. -/
def readPiece : Nat → Bytes → Bytes × Bytes × Bool
  | 0, file => ([], file, false)
  | _ + 1, [] => ([], [], true)
  | n + 1, c :: file =>
    if c = 10 then ([10], file, false)
    else
      let (piece, file, eof) := readPiece n file
      (c :: piece, file, eof)

/-- `fgets`: what it stores in front of a terminator, if there is a character left. -/
def fgets (size : Nat) (file : Bytes) : Option (Bytes × Bytes × Bool) :=
  if file = [] then none else some (readPiece (size - 1) file)

theorem readPiece_suffix (n : Nat) (file : Bytes) : (readPiece n file).2.1 <:+ file := by
  fun_induction readPiece n file <;> grind [List.suffix_refl, List.suffix_cons_iff]

theorem length_fgets_lt {file piece rest : Bytes} {eof : Bool}
    (h : fgets kConfParserMaxLineSize file = some (piece, rest, eof)) :
    rest.length < file.length := by
  unfold fgets at h
  match file with
  | c :: file =>
    have hrest := (readPiece_suffix 1022 file).length_le
    have hread : readPiece 1023 (c :: file) = (piece, rest, eof) := Option.some.inj h
    rw [readPiece] at hread
    grind

/-- What `DisplayConfigErr` prints. -/
structure ConfigErr where
  lineCount : Int32
  lineBuff : Bytes
  errMessage : String
deriving DecidableEq, Repr

/-- The arrays of `ParseConfigFile`, with what they hold at first. -/
structure Arrays where
  lineBuff : Bytes
  wordBuff : Bytes
  size_line : lineBuff.length = kConfParserMaxLineSize
  size_word : wordBuff.length = kConfParserMaxParamSize

/-- What one line comes to, or the whole file. -/
structure Outcome (σ : Type*) where
  error : Int
  userData : σ
  displayed : Option ConfigErr := none

variable {σ : Type*}

/-- A word or a quoted word: the position behind it, and the memory of the word. -/
def takeWord (wordBuff next : Bytes) : Option (Bytes × Bytes) :=
  match next with
  | [] => none
  | c :: _ =>
    if c = 34 then getQuotedWord wordBuff next kConfParserMaxParamSize
    else getWord wordBuff next kConfParserMaxParamSize

/-- The loop over the values of a line, of which `room` more are taken. -/
def readValues (values : List Bytes) (wordBuff next : Bytes) :
    (room : Nat) → Option (List Bytes × Bytes)
  | 0 => some (values, wordBuff)
  | room + 1 =>
    next.head?.bind fun c =>
      if c = 0 then some (values, wordBuff)
      else
        (trimLeft next).bind fun next =>
          next.head?.bind fun c =>
            if c = 0 then some (values, wordBuff)
            else
              (takeWord wordBuff next).bind fun (next, wordBuff) =>
                readValues (values ++ [cString wordBuff]) wordBuff next room

/-- The body of the loop over the lines, and the memory of the words behind it. -/
def parseLine (asserts allowNullValues : Bool) (setter : Bytes → List Bytes → σ → Bool × σ)
    (lineCount : Int32) (lineBuff wordBuff : Bytes) (userData : σ) : Option (Outcome σ × Bytes) :=
  (trimLeft lineBuff).bind fun next =>
    next.head?.bind fun c =>
      if c = 0 ∨ c = 35 then some ({ error := 0, userData }, wordBuff)
      else
        (takeWord wordBuff next).bind fun (next, wordBuff) =>
          let param := cString wordBuff
          if asserts ∧ param = [] then none
          else
            (readValues [] wordBuff next kConfParserMaxParamValues).map fun (values, wordBuff) =>
              let maxValues := values.length
              let refuse (userData : σ) : Outcome σ :=
                { error := -1
                  userData
                  displayed := some
                    { lineCount
                      lineBuff := cString lineBuff
                      errMessage := if 0 < maxValues then "Parameter could not be set."
                        else "No value to set." } }
              if 0 < maxValues ∨ allowNullValues then
                let (failed, userData) := setter param values userData
                (if failed then refuse userData else { error := 0, userData }, wordBuff)
              else (refuse userData, wordBuff)

/-- The loop over the lines. -/
def parseLines (asserts allowNullValues : Bool) (setter : Bytes → List Bytes → σ → Bool × σ)
    (file : Bytes) (lineCount : Int32) (lineBuff wordBuff : Bytes) (error : Int) (userData : σ) :
    Option (Outcome σ) :=
  match _hread : fgets kConfParserMaxLineSize file with
  | none => some { error, userData }
  | some (piece, rest, eof) =>
    (write lineBuff 0 (piece ++ [0])).bind fun lineBuff =>
      (parseLine asserts allowNullValues setter (lineCount + 1) lineBuff wordBuff userData).bind
        fun (outcome, wordBuff) =>
          if eof = false ∧ outcome.error = 0 then
            parseLines asserts allowNullValues setter rest (lineCount + 1) lineBuff wordBuff
              outcome.error outcome.userData
          else some outcome
termination_by file.length
decreasing_by exact length_fgets_lt _hread

/-- `ParseConfigFile`, with the file that `fopen` opens. -/
def parseConfigFile (asserts allowNullValues : Bool) (file : Option Bytes)
    (setter : Bytes → List Bytes → σ → Bool × σ) (arrays : Arrays) (userData : σ) :
    Option (Outcome σ) :=
  match file with
  | none => some { error := -1, userData }
  | some file =>
    parseLines asserts allowNullValues setter file 0 arrays.lineBuff arrays.wordBuff (-1) userData

end CxxFramework.Basic
