/-
  Kin.Tui.Keys

  **KEYS AND THEIR BINDINGS** (`internal/tui/keys.go`; `tea.KeyMsg` and
  `key.Matches` of the libraries under it).

  A binding is a list of texts, and a key matches it by its own text: the name
  of a special key, or the runes typed.  Typed text is therefore compared with
  the names as well; pasted text is put in brackets so that it never matches.
-/
import Kin.Lib.GoStd

namespace Kin.Tui

open Kin.Lib

/-! ## §1. Text. -/

/-- `string(runes)`. -/
def encodeRunes (runes : List Char) : GoString := runes.flatMap String.utf8EncodeChar

/-! ## §2. Keys. -/

/-- The types of keys that the program names. -/
inductive KeyType where
  | runes
  | space
  | backspace
  | tab
  | enter
  | esc
  | up
  | down
  | home
  | endKey
  | f1
  | ctrlC
  | ctrlD
  | ctrlU
  /-- A key that no binding names. -/
  | unbound
  deriving DecidableEq

/-- `keyNames`; the runes of a `KeyRunes` stand for themselves. -/
def KeyType.name : KeyType → GoString
  | runes => ascii "runes"
  | space => ascii " "
  | backspace => ascii "backspace"
  | tab => ascii "tab"
  | enter => ascii "enter"
  | esc => ascii "esc"
  | up => ascii "up"
  | down => ascii "down"
  | home => ascii "home"
  | endKey => ascii "end"
  | f1 => ascii "f1"
  | ctrlC => ascii "ctrl+c"
  | ctrlD => ascii "ctrl+d"
  | ctrlU => ascii "ctrl+u"
  | unbound => ascii "f20"

structure KeyMsg where
  type : KeyType
  runes : List Char
  alt : Bool
  paste : Bool
  deriving DecidableEq

namespace KeyMsg

/-- `String()`. -/
def text (k : KeyMsg) : GoString :=
  (if k.alt then ascii "alt+" else []) ++
    match k.type with
    | .runes =>
      (if k.paste then ascii "[" else []) ++ encodeRunes k.runes
        ++ (if k.paste then ascii "]" else [])
    | type => type.name

end KeyMsg

/-- `key.Binding`: the texts it matches. -/
abbrev Binding := List GoString

def KeyMsg.matches (k : KeyMsg) (b : Binding) : Bool := decide (k.text ∈ b)

/-! ## §3. The bindings. -/

namespace keys

def quit : Binding := [ascii "q"]

def tab : Binding := [ascii "tab"]

def help : Binding := [ascii "?", ascii "f1"]

def up : Binding := [ascii "k", ascii "up"]

def down : Binding := [ascii "j", ascii "down"]

def first : Binding := [ascii "g", ascii "home"]

def last : Binding := [ascii "G", ascii "end"]

def halfUp : Binding := [ascii "ctrl+u"]

def halfDown : Binding := [ascii "ctrl+d"]

def enter : Binding := [ascii "enter", ascii "l"]

def search : Binding := [ascii "/"]

def escape : Binding := [ascii "esc"]

def select : Binding := [ascii " ", ascii "x"]

def download : Binding := [ascii "D"]

def progress : Binding := [ascii "p"]

def invite : Binding := [ascii "i"]

def join : Binding := [ascii "J"]

def disconnect : Binding := [ascii "d"]

end keys

/-- Three runes that arrive as one message read like the key `esc`; pasted they
do not. -/
example : (KeyMsg.mk .runes ['e', 's', 'c'] false false).matches keys.escape = true := by decide
example : (KeyMsg.mk .runes ['e', 's', 'c'] false true).matches keys.escape = false := by decide

end Kin.Tui
