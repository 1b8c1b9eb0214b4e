import Licq.Text.Search

/-!
# IniFile/Basic — the configuration text and its section cursors

An `IniFile` keeps a whole configuration as one flat text that starts with a line break, and the
two positions that delimit the selected section.  Every operation searches and edits the text in
place and moves the positions by hand; this module is those operations as the code computes them.
What they do to the lines of the text is `IniFile/Sections`.
-/

namespace Licq

/-- A line of a configuration, without its line break. -/
abbrev Line := List Char

/-- `std::string::npos`, the largest `size_t`. -/
def npos : ℕ := 2 ^ 64 - 1

/-- The subtraction of two `size_t`, which wraps below zero. -/
def sizeSub (a b : ℕ) : ℕ := if b ≤ a then a - b else 2 ^ 64 + a - b

theorem sizeSub_of_le {a b : ℕ} (h : b ≤ a) : sizeSub a b = a - b := if_pos h

/-- The configuration text with the selected section.  `mySection` holds `mySectionStart` and
`mySectionEnd`, which the code sets to `npos` together. -/
structure IniFile where
  myConfigData : List Char
  mySection : Option (ℕ × ℕ)
  myIsModified : Bool
  deriving DecidableEq, Repr

namespace IniFile

/-! ## Loading a text -/

/-- Old configuration files had spaces around the equal sign: drop them, section headers and
comments excepted. -/
def dropSpaces (l : Line) : Line :=
  if l.head? = some '[' ∨ l.head? = some '#' ∨ l.head? = some ';' then l
  else match Text.find ['='] l with
    | none => l
    | some pos =>
      -- At `pos = 0` the character before the sign is the previous line break.
      if l[pos - 1]? = some ' ' ∧ l[pos + 1]? = some ' ' then
        l.take (pos - 1) ++ '=' :: l.drop (pos + 2)
      else l

/-- The constructor: one line break and no section. -/
def empty : IniFile := ⟨['\n'], none, true⟩

def loadRawConfiguration (rawConfig : List Char) : IniFile :=
  let myConfigData := '\n' :: rawConfig
  let myConfigData :=
    if myConfigData.getLast? = some '\n' then myConfigData else myConfigData ++ ['\n']
  ⟨'\n' :: Text.unlines '\n' ((Text.lines '\n' myConfigData.tail).map dropSpaces), none, true⟩

def getRawConfiguration (ini : IniFile) : List Char := ini.myConfigData.drop 1

/-! ## Selecting a section -/

/-- The characters a section name may hold. -/
def sectionChar (c : Char) : Bool :=
  c.isAlphanum || c = '+' || c = '-' || c = '.' || c = '@' || c = '_'

/-- The name a section is searched and created under: other characters are erased. -/
def sectionName (rawSection : List Char) : List Char := rawSection.filter sectionChar

/-- The header of a section. -/
def header (name : List Char) : Line := '[' :: name ++ [']']

/-- Find the end of a section, that is, the start of the next one. -/
def sectionEnd (data : List Char) (start : ℕ) : ℕ :=
  match Text.findFrom ['\n', '['] data (start - 1) with
  | some p => p + 1
  | none => data.length

/-- Don't include empty lines between sections: move the section end `e` back over them. -/
def trimEnd (data : List Char) (start : ℕ) : ℕ → ℕ
  | 0 => 0
  | e + 1 => if start < e + 1 ∧ data[e - 1]? = some '\n' then trimEnd data start e else e + 1

def setSection (ini : IniFile) (rawSection : List Char) (allowAdd : Bool) : Bool × IniFile :=
  let name := sectionName rawSection
  if name = [] then (false, { ini with mySection := none })
  else match Text.find ('\n' :: header name) ini.myConfigData with
    | some pos =>
      let (data, start) :=
        match Text.findFrom ['\n'] ini.myConfigData (pos + 1) with
        | some p => (ini.myConfigData, p + 1)
        | none => (ini.myConfigData ++ ['\n'], ini.myConfigData.length + 1)
      let stop := trimEnd data start (sectionEnd data start)
      (true, { ini with myConfigData := data, mySection := some (start, stop) })
    | none =>
      if allowAdd then
        let data := ini.myConfigData
        -- Make sure we get an extra line between each section
        let data :=
          if 1 < data.length ∧
              (data[data.length - 1]? ≠ some '\n' ∨ data[data.length - 2]? ≠ some '\n') then
            data ++ ['\n']
          else data
        let data := data ++ header name ++ ['\n']
        (true, ⟨data, some (data.length, data.length), true⟩)
      else (false, { ini with mySection := none })

def removeSection (ini : IniFile) (rawSection : List Char) : IniFile :=
  match setSection ini rawSection false with
  | (false, ini) => ini
  | (true, ini) =>
    match ini.mySection with
    | none => ini
    | some (start, stop) =>
      match Text.rfindFrom ['\n', '['] ini.myConfigData (start - 2) with
      | none => ini
      | some pos =>
        -- Also remove empty lines at end of section
        let stop := stop + ((ini.myConfigData.drop stop).takeWhile (· = '\n')).length
        ⟨ini.myConfigData.take (pos + 1) ++ ini.myConfigData.drop stop, none, true⟩

/-! ## Parameters of the selected section -/

/-- The characters a parameter name may hold. -/
def keyChar (c : Char) : Bool := c.isAlphanum || c = '-' || c = '.' || c = '_'

/-- A value as it is written: line breaks and backslashes are escaped. -/
def escape : List Char → List Char
  | [] => []
  | '\n' :: s => '\\' :: 'n' :: escape s
  | '\\' :: s => '\\' :: '\\' :: escape s
  | c :: s => c :: escape s

/-- A value as it is read: the two escapes are resolved, any other backslash stays. -/
def unescape : List Char → List Char
  | [] => []
  | '\\' :: 'n' :: s => '\n' :: unescape s
  | '\\' :: '\\' :: s => '\\' :: unescape s
  | c :: s => c :: unescape s

theorem escape_cons {c : Char} (hnl : c ≠ '\n') (hbs : c ≠ '\\') (s : List Char) :
    escape (c :: s) = c :: escape s := by
  rw [escape]
  · exact hnl
  · exact hbs

theorem unescape_cons {c : Char} (hbs : c ≠ '\\') (s : List Char) :
    unescape (c :: s) = c :: unescape s := by
  rw [unescape]
  · exact fun _ h => absurd h hbs
  · exact fun _ h => absurd h hbs

/-- What a parameter's line is searched by, from the line break before it. -/
def needle (key : List Char) : List Char := '\n' :: key ++ ['=']

/-- The number of characters from `pos` up to the first line break at or after `k`, `npos` when
there is none. -/
def lengthTo (data : List Char) (pos k : ℕ) : ℕ :=
  match Text.findFrom ['\n'] data k with
  | some next => next - pos
  | none => npos

/-- The value of a parameter; `none` where the code returns false and the default. -/
def get (ini : IniFile) (key : List Char) : Option (List Char) :=
  match ini.mySection with
  | none => none
  | some (start, stop) =>
    match Text.findFrom (needle key) ini.myConfigData (start - 1) with
    | none => none
    | some pos =>
      if stop ≤ pos then none
      else
        let valueStart := pos + key.length + 2
        some (unescape ((ini.myConfigData.drop valueStart).take
          (lengthTo ini.myConfigData valueStart valueStart)))

/-- Replace or add a parameter; `none` where `std::string` throws `out_of_range`. -/
def set (ini : IniFile) (key data : List Char) : Option (Bool × IniFile) :=
  match ini.mySection with
  | none => some (false, ini)
  | some (start, stop) =>
    if ¬ key.all keyChar then some (false, ini)
    else
      let safeData := escape data
      let addLine :=
        if stop ≤ ini.myConfigData.length then
          some (true, ⟨ini.myConfigData.take stop ++ (key ++ '=' :: safeData ++ ['\n'])
              ++ ini.myConfigData.drop stop,
            some (start, stop + key.length + safeData.length + 2), true⟩)
        else none
      match Text.findFrom (needle key) ini.myConfigData (start - 1) with
      | none => addLine
      | some pos =>
        if pos < stop then
          let valueStart := pos + key.length + 2
          let len := lengthTo ini.myConfigData valueStart valueStart
          if safeData = (ini.myConfigData.drop valueStart).take len then some (true, ini)
          else
            some (true, ⟨ini.myConfigData.take valueStart ++ safeData
                ++ ini.myConfigData.drop (valueStart + len),
              some (start, sizeSub (stop + safeData.length) len), true⟩)
        else addLine

/-- Remove a parameter.  The guard of the source reads `start == npos && start >= mySectionEnd`:
only a parameter found nowhere after the section start is refused. -/
def unset (ini : IniFile) (key : List Char) : Bool × IniFile :=
  match ini.mySection with
  | none => (false, ini)
  | some (start, stop) =>
    match Text.findFrom (needle key) ini.myConfigData (start - 1) with
    | none => (false, ini)
    | some pos =>
      let len := lengthTo ini.myConfigData pos (pos + 1)
      (true, ⟨ini.myConfigData.take pos ++ ini.myConfigData.drop (pos + len),
        some (start, sizeSub stop len), true⟩)

/-- The loop of `getKeyList` over the lines from `lineStart` on. -/
def keyLines (data keyPrefix : List Char) (stop : ℕ) : ℕ → List Line → List (List Char)
  | _, [] => []
  | lineStart, line :: rest =>
    if lineStart < stop then
      let tail := keyLines data keyPrefix stop (lineStart + line.length + 1) rest
      if line.head? = some '#' ∨ line.head? = some ';' then tail
      else if keyPrefix <+: data.drop lineStart then
        match Text.find ['='] line with
        | some equalPos => line.take equalPos :: tail
        | none => tail
      else tail
    else []

def getKeyList (ini : IniFile) (keyPrefix : List Char) : List (List Char) :=
  match ini.mySection with
  | none => []
  | some (start, stop) =>
    keyLines ini.myConfigData keyPrefix stop start (Text.lines '\n' (ini.myConfigData.drop start))

end IniFile

end Licq
