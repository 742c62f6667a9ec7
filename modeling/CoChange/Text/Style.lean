import CoChange.Text.Cut

/-!
# Terminal styles

A painted text stands between the escape sequence of its style and the one that resets all styles.
A reset inside the text would end its style early, so the style is taken up again behind it.
-/

namespace CoChange.Text

inductive Attribute where
  | bold
  | dimmed
  | red
  | green
  | yellow
  | cyan
deriving DecidableEq, Repr

def Attribute.code : Attribute → String
  | bold => "1"
  | dimmed => "2"
  | red => "31"
  | green => "32"
  | yellow => "33"
  | cyan => "36"

def styleSequence (style : List Attribute) : List Char :=
  ['\x1b', '['] ++ (";".intercalate (style.map Attribute.code)).toList ++ ['m']

def resetSequence : List Char := ['\x1b', '[', '0', 'm']

/-- A text with a style taken up again behind every reset. -/
def resume (style : List Char) : List Char → List Char
  | [] => []
  | '\x1b' :: '[' :: '0' :: 'm' :: rest => resetSequence ++ style ++ resume style rest
  | c :: rest => c :: resume style rest

/-- A text in a style, or as it is if colours are off. -/
def paint (colored : Bool) (style : List Attribute) (text : String) : String :=
  if colored then
    String.ofList <|
      styleSequence style ++ resume (styleSequence style) text.toList ++ resetSequence
  else text

@[simp] theorem paint_plain (style : List Attribute) (text : String) :
    paint false style text = text := rfl

end CoChange.Text
