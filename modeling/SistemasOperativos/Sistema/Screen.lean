import SistemasOperativos.Sistema.Dashboard
import SistemasOperativos.Text.Format

/-!
# What is on the screen

The bytes of the datagrams, and what `dashboard.c` prints of them. The buffers of the
formatted messages have the length that `snprintf` computes first: their zero takes the place
of the last newline, and of more when the value that is printed then has more digits.
-/
namespace Sistema

open Threads Threads.Program Text

/-! ## The datagrams -/

def Act.text : Act → String
  | none => ""
  | apagando => "- apagando propulsores"
  | satisfactorio => "<Aterrizaje satisfactorio>"

def Potencia.text : Potencia → String
  | acelerando => "acelerando"
  | desacelerando => "desacelerando"
  | normal => "normal"

def Alarm.text : Alarm → String
  | c101 => "Reiniciando todos los propulsores\n"
  | c102 => "Reiniciando propulsor principal\n"
  | c103 => "Reiniciando propulsores de orientación\n"
  | c104 => "El cohete ha explotado!\n"

/-- `snprintf(NULL, 0, ...)`, `malloc(space)` and `snprintf(buffer, space, ...)`, with what
each call finds in its arguments. Behind a shorter text is what `malloc` has left there. -/
def formatted (heap : ℕ → Byte) (fmt : String) (args args' : List Arg) : List Byte :=
  let space := (sprintf fmt args).length
  let buffer := snprintf space (sprintf fmt args')
  buffer ++ (List.range' buffer.length (space - buffer.length)).map heap

/-- `strlen(msg) + 1` bytes of a literal. -/
def literal (msg : String) : List Byte := utf8 msg ++ [0]

/-- The bytes that are handed to `sendto`. -/
def Msg.datagram (heap : ℕ → Byte) : Msg → List Byte
  | giroscopio i w v on =>
      let state := utf8 (if on then "ON - iniciando correcciones" else "OFF")
      formatted heap "Giroscopio %d: %d (%s)\n" [.d i.val, .d w, .s state] [.d i.val, .d v, .s state]
  | reiniciando => literal "Reiniciando aterrizaje"
  | enCurso => literal "Aterrizaje en curso"
  | abortando => literal "Abortando aterrizaje"
  | sinAborto => literal "Sin aborto de aterrizaje"
  | distancia d act => formatted heap "Distancia a tierra: %d %s\n" [.d d, .s (utf8 act.text)]
      [.d d, .s (utf8 act.text)]
  | alarma a => literal a.text
  | sinAlarmas => literal "Sin alarmas"
  | combustible h g on p =>
      let state := utf8 (if on then "ON" else "OFF")
      formatted heap "Combustible: %d\n--> Motor principal: %s - potencia %s\n"
        [.d h, .s state, .s (utf8 p.text)] [.d g, .s state, .s (utf8 p.text)]

/-- `LEN_MAX_STRING`. -/
def lenMaxString : ℕ := 350

/-- A datagram is cut to the length of `stringResponse`, ended and printed. -/
def printed (datagram : List Byte) : List Byte :=
  let stringResponse := datagram.take lenMaxString ++ [0]
  sprintf "--> %s\n" [.s (cstring stringResponse)]

def Line.bytes (heap : ℕ → Byte) : Line → List Byte
  | mensaje m => printed (m.datagram heap)
  | error => utf8 "Error al leer mensaje del socket\n"
  | separador => utf8 "*------------------------------------------*\n"

/-- The standard output of the dashboard; each message was put into a buffer of its own. -/
def screen (heap : ℕ → ℕ → Byte) (out : List Line) : List Byte :=
  (out.mapIdx fun n l => l.bytes (heap n)).flatten

/-! ## A message on the screen -/

/-- The numbers of a message are of the type that the controller has for them. -/
def Msg.IsInt : Msg → Prop
  | giroscopio _ w v _ => Text.IsInt w ∧ Text.IsInt v
  | distancia d _ => Text.IsInt d
  | combustible h g _ _ => Text.IsInt h ∧ Text.IsInt g
  | _ => True

instance : (m : Msg) → Decidable m.IsInt
  | .giroscopio .. | .combustible .. => inferInstanceAs (Decidable (_ ∧ _))
  | .distancia .. => inferInstanceAs (Decidable (Text.IsInt _))
  | .reiniciando | .enCurso | .abortando | .sinAborto => isTrue trivial
  | .alarma _ | .sinAlarmas => isTrue trivial

/-- What comes after the fuel. -/
def motorTail (on : Bool) : List Byte :=
  utf8 (if on then "\n--> Motor principal: ON" else "\n--> Motor principal: OFF")

/-- What a message says first. -/
def Msg.front : Msg → List Byte
  | giroscopio i _ _ _ => utf8 "Giroscopio " ++ (ld i.val ++ utf8 ": ")
  | reiniciando => utf8 "Reiniciando aterrizaje"
  | enCurso => utf8 "Aterrizaje en curso"
  | abortando => utf8 "Abortando aterrizaje"
  | sinAborto => utf8 "Sin aborto de aterrizaje"
  | distancia d act => utf8 "Distancia a tierra: " ++ (ld d ++ utf8 (" " ++ act.text))
  | alarma a => utf8 a.text
  | sinAlarmas => utf8 "Sin alarmas"
  | combustible _ g on _ => utf8 "Combustible: " ++ (ld g ++ motorTail on)

/-- What it says then, and may lose. -/
def Msg.back : Msg → List Byte
  | giroscopio _ _ v on => ld v ++ utf8 (if on then " (ON - iniciando correcciones)" else " (OFF)")
  | combustible _ _ _ p => utf8 " - potencia " ++ utf8 p.text
  | _ => []

def Msg.text (m : Msg) : List Byte := m.front ++ m.back

/-- The message with the values that its length was computed from. -/
def Msg.first : Msg → Msg
  | giroscopio i w _ on => giroscopio i w w on
  | combustible h _ on p => combustible h h on p
  | m => m

/-- What is printed of it. -/
def Msg.shown (m : Msg) : List Byte := (m.text ++ [newline]).take m.first.text.length

/-- What is left of its second part. -/
def Msg.kept (m : Msg) : List Byte :=
  (m.back ++ [newline]).take (m.first.text.length - m.front.length)

/-- Its value had no more digits when it was printed. -/
def Msg.Whole (m : Msg) : Prop := m.text.length ≤ m.first.text.length

theorem formatted_eq {heap : ℕ → Byte} {fmt : String} {args args' : List Arg} {first text : List Byte}
    (h : sprintf fmt args = first ++ [newline]) (h' : sprintf fmt args' = text ++ [newline]) :
    ∃ rest, formatted heap fmt args args' = (text ++ [newline]).take first.length ++ 0 :: rest := by
  simp only [formatted, h, h', List.length_append, List.length_singleton, snprintf_succ,
    List.append_assoc, List.singleton_append]
  exact ⟨_, rfl⟩

theorem shown_of_first {m : Msg} (h : m.first = m) (hb : m.back = []) : m.shown = m.front := by
  rw [Msg.shown, h, List.take_left, Msg.text, hb, List.append_nil]

/-- In the datagram a zero is behind what is printed, and then what nobody wrote. -/
theorem datagram_eq (heap : ℕ → Byte) (m : Msg) : ∃ rest, m.datagram heap = m.shown ++ 0 :: rest := by
  cases m with
  | giroscopio i w v on =>
    refine formatted_eq ?_ ?_ <;> cases on <;>
      simp only [Msg.first, Msg.text, Msg.front, Msg.back, List.append_assoc] <;> rfl
  | distancia d act =>
    refine formatted_eq ?_ ?_ <;> cases act <;>
      simp only [Msg.first, Msg.text, Msg.front, Msg.back, List.append_assoc] <;> rfl
  | combustible h g on p =>
    refine formatted_eq ?_ ?_ <;> cases on <;> cases p <;>
      simp only [Msg.first, Msg.text, Msg.front, Msg.back, List.append_assoc] <;> rfl
  | _ =>
    rw [shown_of_first rfl rfl]
    exact ⟨[], rfl⟩

theorem zero_not_mem_text (m : Msg) : 0 ∉ m.text := by
  cases m with
  | giroscopio i w v on =>
    simp only [Msg.text, Msg.front, Msg.back, List.mem_append, not_or]
    refine ⟨⟨by decide, zero_not_mem_ld _, by decide⟩, zero_not_mem_ld _, ?_⟩
    cases on <;> decide
  | distancia d act =>
    simp only [Msg.text, Msg.front, Msg.back, List.mem_append, not_or]
    refine ⟨⟨by decide, zero_not_mem_ld _, ?_⟩, by decide⟩
    cases act <;> decide
  | combustible h g on p =>
    simp only [Msg.text, Msg.front, Msg.back, List.mem_append, not_or]
    refine ⟨⟨by decide, zero_not_mem_ld _, ?_⟩, by decide, ?_⟩
    · cases on <;> decide
    · cases p <;> decide
  | alarma a => cases a <;> decide
  | _ => decide

theorem ld_ne_nil (n : ℤ) : 0 < (ld n).length := by
  have hdecimal := List.length_pos_iff.mpr (decimal_ne_nil n.natAbs)
  unfold ld
  split
  · exact Nat.succ_pos _
  · exact hdecimal

/-- The first part comes out whole, since a number has at most ten bytes more than another. -/
theorem front_length {m : Msg} (h : m.IsInt) :
    m.front.length ≤ m.first.text.length ∧ m.first.text.length < lenMaxString := by
  cases m with
  | giroscopio i w v on =>
    have hi : (ld i.val).length ≤ 11 := ld_length ⟨by omega, by omega⟩
    have hw := ld_length h.1
    have hon : (utf8 (if on then " (ON - iniciando correcciones)" else " (OFF)")).length ≤ 30 := by
      cases on <;> decide
    have h1 : (utf8 "Giroscopio ").length = 11 := by decide
    have h2 : (utf8 ": ").length = 2 := by decide
    simp only [Msg.first, Msg.text, Msg.front, Msg.back, List.length_append, h1, h2, lenMaxString]
    omega
  | distancia d act =>
    have hd := ld_length h
    have hact : (utf8 (" " ++ act.text)).length ≤ 30 := by cases act <;> decide
    have h1 : (utf8 "Distancia a tierra: ").length = 20 := by decide
    simp only [Msg.first, Msg.text, Msg.front, Msg.back, List.length_append, h1, lenMaxString,
      List.length_nil]
    omega
  | combustible k g on p =>
    have hk := ld_length h.1
    have hg := ld_length h.2
    have hpos := ld_ne_nil k
    have hon : (motorTail on).length ≤ 30 := by cases on <;> decide
    have hp : (utf8 p.text).length ≤ 13 := by cases p <;> decide
    have h1 : (utf8 "Combustible: ").length = 13 := by decide
    have h2 : (utf8 " - potencia ").length = 12 := by decide
    simp only [Msg.first, Msg.text, Msg.front, Msg.back, List.length_append, h1, h2, lenMaxString]
    omega
  | alarma a => cases a <;> decide
  | _ => decide

theorem shown_eq {m : Msg} (h : m.IsInt) : m.shown = m.front ++ m.kept := by
  have hle := (front_length h).1
  unfold Msg.shown Msg.kept
  generalize m.first.text.length = n at hle ⊢
  rw [Msg.text, List.append_assoc, List.take_append, List.take_of_length_le hle]

/-- A text that is not cut may even have its newline. -/
theorem shown_of_whole {m : Msg} (h : m.Whole) :
    m.shown = m.text ∨ m.shown = m.text ++ [newline] := by
  obtain he | hlt := Nat.eq_or_lt_of_le h
  · left
    rw [Msg.shown, ← he, List.take_left]
  · right
    exact List.take_of_length_le (by simpa using Nat.succ_le_of_lt hlt)

/-- What a datagram is on the screen. -/
theorem printed_datagram {m : Msg} (h : m.IsInt) (heap : ℕ → Byte) :
    printed (m.datagram heap) = utf8 "--> " ++ (m.shown ++ utf8 "\n") := by
  obtain ⟨rest, hrest⟩ := datagram_eq heap m
  have hlen : m.shown.length < lenMaxString :=
    (List.length_take_le _ _).trans_lt (front_length h).2
  have h0 : 0 ∉ m.shown := by
    intro hmem
    have := List.mem_of_mem_take hmem
    simp only [List.mem_append, List.mem_singleton] at this
    obtain hm | hm := this
    · exact zero_not_mem_text m hm
    · cases hm
  have hstring : cstring ((m.datagram heap).take lenMaxString ++ [0]) = m.shown := by
    rw [hrest, List.take_append, List.take_of_length_le hlen.le,
      ← Nat.succ_pred_eq_of_pos (Nat.sub_pos_of_lt hlen), List.take_succ_cons, List.append_assoc]
    exact cstring_of_zero h0 _
  unfold printed
  simp only [hstring]
  rfl

/-- Two gyroscopes that are read at 0 for the length, and then have eight digits. -/
theorem digits_lost (heap : ℕ → Byte) :
    printed ((Msg.giroscopio 0 0 12345670 false).datagram heap) =
      printed ((Msg.giroscopio 0 0 12345678 false).datagram heap) := by
  have h₀ : ld 0 = utf8 "0" := by simp [ld, decimal]; decide
  have h₁ : ld 12345670 = utf8 "12345670" := by simp [ld, decimal]; decide
  have h₂ : ld 12345678 = utf8 "12345678" := by simp [ld, decimal]; decide
  rw [printed_datagram (by decide), printed_datagram (by decide)]
  simp only [Msg.shown, Msg.text, Msg.first, Msg.front, Msg.back, Fin.val_zero, Nat.cast_zero, h₀, h₁, h₂]
  decide

/-! ## Telling the lines apart -/

/-- What a line starts with, up to its first number. -/
inductive Head
  | giroscopio
  | reiniciando
  | enCurso
  | abortando
  | sinAborto
  | distancia
  | alarma (a : Alarm)
  | sinAlarmas
  | combustible
  | error
  | separador
  deriving DecidableEq

def Head.all : List Head :=
  [giroscopio, reiniciando, enCurso, abortando, sinAborto, distancia, alarma .c101, alarma .c102,
    alarma .c103, alarma .c104, sinAlarmas, combustible, error, separador]

def Head.bytes : Head → List Byte
  | giroscopio => utf8 "--> Giroscopio "
  | reiniciando => utf8 "--> Reiniciando aterrizaje\n"
  | enCurso => utf8 "--> Aterrizaje en curso\n"
  | abortando => utf8 "--> Abortando aterrizaje\n"
  | sinAborto => utf8 "--> Sin aborto de aterrizaje\n"
  | distancia => utf8 "--> Distancia a tierra: "
  | alarma a => utf8 "--> " ++ (utf8 a.text ++ utf8 "\n")
  | sinAlarmas => utf8 "--> Sin alarmas\n"
  | combustible => utf8 "--> Combustible: "
  | error => utf8 "Error al leer mensaje del socket\n"
  | separador => utf8 "*------------------------------------------*\n"

theorem Head.mem_all (h : Head) : h ∈ all := by
  cases h with
  | alarma a => cases a <;> decide
  | _ => decide

theorem Head.bytes_ne_nil (h : Head) : h.bytes ≠ [] := by
  cases h with
  | alarma a => cases a <;> decide
  | _ => decide

theorem head_distinct : Distinct (fun _ => True) Head.bytes := by
  have hall : ∀ h ∈ Head.all, ∀ h' ∈ Head.all, h.bytes <+: h'.bytes → h = h' := by decide
  exact .of_incomparable fun h h' => hall h h.mem_all h' h'.mem_all

def Line.head : Line → Head
  | mensaje (.giroscopio _ _ _ _) => .giroscopio
  | mensaje .reiniciando => .reiniciando
  | mensaje .enCurso => .enCurso
  | mensaje .abortando => .abortando
  | mensaje .sinAborto => .sinAborto
  | mensaje (.distancia _ _) => .distancia
  | mensaje (.alarma a) => .alarma a
  | mensaje .sinAlarmas => .sinAlarmas
  | mensaje (.combustible _ _ _ _) => .combustible
  | error => .error
  | separador => .separador

def Line.IsInt : Line → Prop
  | mensaje m => m.IsInt
  | _ => True

/-- A line on the screen, whatever its buffer has behind the zero. -/
def Line.shown : Line → List Byte
  | mensaje m => utf8 "--> " ++ (m.shown ++ utf8 "\n")
  | error => utf8 "Error al leer mensaje del socket\n"
  | separador => utf8 "*------------------------------------------*\n"

theorem Line.bytes_eq {l : Line} (h : l.IsInt) (heap : ℕ → Byte) : l.bytes heap = l.shown := by
  cases l with
  | mensaje m => exact printed_datagram h heap
  | _ => rfl

def actTail (act : Act) : List Byte := utf8 (" " ++ act.text ++ "\n")

/-- What comes after the start of a line, and before what may be cut off. -/
def Line.number : Line → List Byte
  | mensaje (.giroscopio i _ _ _) => ld i.val ++ utf8 ": "
  | mensaje (.distancia d act) => ld d ++ actTail act
  | mensaje (.combustible _ g on _) => ld g ++ motorTail on
  | _ => []

/-- What may be cut, with a newline after it. -/
def Line.rest : Line → List Byte
  | mensaje m@(.giroscopio _ _ _ _) | mensaje m@(.combustible _ _ _ _) =>
      m.kept ++ [newline]
  | _ => []

theorem Line.shown_eq {l : Line} (h : l.IsInt) :
    l.shown = l.head.bytes ++ (l.number ++ l.rest) := by
  cases l with
  | mensaje m =>
    have hm : m.shown = _ := Sistema.shown_eq h
    cases m with
    | giroscopio i w v on | combustible k g on p =>
      rw [Line.shown, hm, Msg.front]
      simp only [List.append_assoc, Line.number, Line.rest]
      rfl
    | distancia d act =>
      rw [Line.shown, shown_of_first rfl rfl, Msg.front]
      simp only [List.append_assoc, Line.number, Line.rest, List.append_nil]
      cases act <;> rfl
    | _ =>
      rw [Line.shown, shown_of_first rfl rfl]
      simp only [Line.number, Line.rest, List.append_nil]
      rfl
  | _ => simp only [Line.number, Line.rest, List.append_nil]; rfl

/-! ### Where a line ends -/

theorem newline_not_mem_ld : ∀ n : ℤ, newline ∉ ld n := not_mem_ld rfl (by decide)

theorem newline_not_mem_back (m : Msg) : newline ∉ m.back := by
  cases m with
  | giroscopio i w v on =>
    simp only [Msg.back, List.mem_append, not_or]
    refine ⟨newline_not_mem_ld _, ?_⟩
    cases on <;> decide
  | combustible h g on p =>
    simp only [Msg.back, List.mem_append, not_or]
    refine ⟨by decide, ?_⟩
    cases p <;> decide
  | _ => exact List.not_mem_nil

/-- Every line but the one of the fuel. -/
theorem shown_paragraph {l : Line} (h : l.IsInt) (hc : l.head ≠ .combustible) : Paragraph l.shown := by
  cases l with
  | mensaje m =>
    cases m with
    | giroscopio i w v on =>
      rw [Line.shown_eq h, ← List.append_assoc]
      refine (Paragraph.take (newline_not_mem_back _) _).cons_append ?_
      simp only [Line.head, Line.number, List.mem_append, not_or]
      exact ⟨by decide, newline_not_mem_ld _, by decide⟩
    | distancia d act =>
      rw [Line.shown_eq h]
      simp only [Line.number, Line.rest, List.append_nil]
      rw [← List.append_assoc]
      refine Paragraph.cons_append ?_ (.of_dropWhile ?_)
      · simp only [Line.head, List.mem_append, not_or]
        exact ⟨by decide, newline_not_mem_ld _⟩
      · cases act <;> decide
    | combustible h g on p => exact absurd rfl hc
    | alarma a => cases a <;> exact .of_dropWhile (by decide)
    | _ => exact .of_dropWhile (by decide)
  | _ => exact .of_dropWhile (by decide)

/-- The line of the fuel is two paragraphs. -/
theorem combustible_paragraphs {h g : ℤ} {on : Bool} {p : Potencia}
    (hm : (Line.mensaje (.combustible h g on p)).IsInt) : ∃ par₁ par₂, Paragraph par₁ ∧ Paragraph par₂ ∧
      (Line.mensaje (.combustible h g on p)).shown = par₁ ++ par₂ ∧ ∀ text, Opens (par₂ ++ text) := by
  refine ⟨utf8 "--> Combustible: " ++ (ld g ++ [newline]), utf8 (if on then "--> Motor principal: ON"
    else "--> Motor principal: OFF") ++ (Line.mensaje (.combustible h g on p)).rest, ?_, ?_, ?_, ?_⟩
  · exact Paragraph.cons_append (by decide) (.one (newline_not_mem_ld g))
  · refine (Paragraph.take (newline_not_mem_back _) _).cons_append ?_
    cases on <;> decide
  · rw [Line.shown_eq hm]
    simp only [Line.number, List.append_assoc]
    cases on <;> rfl
  · intro text
    cases on <;> exact (by decide : some (45 : Byte) ≠ some newline)

theorem shown_opens (l : Line) (text : List Byte) : Opens (l.shown ++ text) := by
  cases l with
  | mensaje => exact (by decide : some (45 : Byte) ≠ some newline)
  | error => exact (by decide : some (69 : Byte) ≠ some newline)
  | separador => exact (by decide : some (42 : Byte) ≠ some newline)

/-- Messages with the same start. -/
inductive Kin : Msg → Msg → Prop
  | giroscopio {i i' : Gyro} {w w' v v' : ℤ} {on on' : Bool} :
    Kin (.giroscopio i w v on) (.giroscopio i' w' v' on')
  | distancia {d d' : ℤ} {act act' : Act} : Kin (.distancia d act) (.distancia d' act')
  | combustible {h h' g g' : ℤ} {on on' : Bool} {p p' : Potencia} :
    Kin (.combustible h g on p) (.combustible h' g' on' p')
  | refl {m : Msg} : Kin m m

theorem kin_of_head {m m' : Msg} (h : (Line.mensaje m).head = (Line.mensaje m').head) : Kin m m' := by
  cases m <;> cases m' <;> first
    | exact .giroscopio
    | exact .distancia
    | exact .combustible
    | (cases h; exact .refl)
    | cases h

theorem combustible_of_head {l : Line} (h : l.head = .combustible) :
    ∃ k g on p, l = .mensaje (.combustible k g on p) := by
  cases l with
  | mensaje m =>
    cases m with
    | combustible k g on p => exact ⟨k, g, on, p, rfl⟩
    | _ => cases h
  | _ => cases h

/-- Cut or not, each line on the screen ends where the next one begins. -/
theorem line_framed : Framed Line.IsInt Opens Line.shown := by
  intro l l' hl hl' text text' ht ht' h
  have hh : l.head = l'.head := by
    rw [Line.shown_eq hl, Line.shown_eq hl'] at h
    simp only [List.append_assoc] at h
    exact head_distinct _ _ trivial trivial _ _ h
  by_cases hc : l.head = .combustible
  · obtain ⟨k, g, on, p, rfl⟩ := combustible_of_head hc
    obtain ⟨k', g', on', p', rfl⟩ := combustible_of_head (hh.symm.trans hc)
    obtain ⟨a, b, ha, hb, hab, hopen⟩ := combustible_paragraphs hl
    obtain ⟨a', b', ha', hb', hab', hopen'⟩ := combustible_paragraphs hl'
    rw [hab, hab', List.append_assoc, List.append_assoc] at h
    obtain rfl := paragraph_framed a a' ha ha' _ _ (hopen text) (hopen' text') h
    obtain rfl := paragraph_framed b b' hb hb' _ _ ht ht' (List.append_cancel_left h)
    rw [hab, hab']
  · exact paragraph_framed _ _ (shown_paragraph hl hc) (shown_paragraph hl' (hh ▸ hc)) _ _ ht ht' h

/-! ### What a line tells -/

/-- The message with the values of its text. -/
def Msg.seen : Msg → Msg
  | giroscopio i _ v on => giroscopio i v v on
  | combustible _ g on p => combustible g g on p
  | m => m

/-- What no cut takes away: of a gyroscope which one it is, of the engine all but its power. -/
def Msg.sure : Msg → Msg
  | giroscopio i _ _ _ => giroscopio i 0 0 false
  | combustible _ g on _ => combustible g g on .normal
  | m => m

/-- Two lines that are the same on the screen. -/
inductive Alike : Line → Line → Prop
  | mensaje {m m' : Msg} (hs : m.sure = m'.sure) (hw : m.Whole → m'.Whole → m.seen = m'.seen) :
    Alike (.mensaje m) (.mensaje m')
  | refl {l : Line} : Alike l l

def onTail (on : Bool) : List Byte :=
  utf8 (if on then " (ON - iniciando correcciones)\n" else " (OFF)\n")

def potenciaTail (p : Potencia) : List Byte := utf8 (p.text ++ "\n")

theorem onTail_distinct : Distinct (fun _ => True) onTail := .of_incomparable (by decide)

theorem actTail_distinct : Distinct (fun _ => True) actTail := by
  refine .of_incomparable fun a b => ?_
  cases a <;> cases b <;> decide

theorem motorTail_distinct : Distinct (fun _ => True) motorTail := .of_incomparable (by decide)

theorem potenciaTail_distinct : Distinct (fun _ => True) potenciaTail := by
  refine .of_incomparable fun a b => ?_
  cases a <;> cases b <;> decide

theorem tail_not_digit {α : Type} (tail : α → List Byte) {a : α} {text : List Byte}
    (h : ((tail a).head?.any fun c => !isDigit c) = true) :
    ∀ c, (tail a ++ text).head? = some c → isDigit c = false := by
  intro c hc
  cases ht : tail a with
  | nil =>
    rw [ht] at h
    cases h
  | cons b bs =>
    rw [ht] at h hc
    obtain rfl := Option.some.inj hc
    simpa using h

theorem onTail_not_digit (on : Bool) {text : List Byte} :
    ∀ c, (onTail on ++ text).head? = some c → isDigit c = false :=
  tail_not_digit _ (by cases on <;> decide)

theorem actTail_not_digit (act : Act) {text : List Byte} :
    ∀ c, (actTail act ++ text).head? = some c → isDigit c = false :=
  tail_not_digit _ (by cases act <;> decide)

theorem motorTail_not_digit (on : Bool) {text : List Byte} :
    ∀ c, (motorTail on ++ text).head? = some c → isDigit c = false :=
  tail_not_digit _ (by cases on <;> decide)

/-- A text that is not cut has a newline behind it, and perhaps one more. -/
theorem back_of_whole {m : Msg} (h : m.Whole) (hm : m.IsInt) :
    ∃ extra, m.kept ++ [newline] = m.back ++ newline :: extra := by
  obtain he | he := shown_of_whole h <;> rw [shown_eq hm] at he
  · have hkept : m.kept = m.back := List.append_cancel_left he
    exact ⟨[], by rw [hkept]⟩
  · rw [Msg.text, List.append_assoc] at he
    have hkept : m.kept = m.back ++ [newline] := List.append_cancel_left he
    exact ⟨[newline], by rw [hkept, List.append_assoc]; rfl⟩

section Pairs
variable {i i' : Gyro} {v v' : ℤ} {on on' : Bool} {d d' g g' : ℤ} {act act' : Act} {p p' : Potencia}
variable {text text' extra extra' : List Byte}

theorem giroscopio_sure (h : ld i.val ++ (utf8 ": " ++ text) = ld i'.val ++ (utf8 ": " ++ text')) :
    i = i' ∧ text = text' := by
  obtain ⟨hi, htext⟩ := ld_append_inj h (tail_not_digit utf8 (by decide)) (tail_not_digit utf8 (by decide))
  exact ⟨Fin.ext (by exact_mod_cast hi), List.append_cancel_left htext⟩

theorem giroscopio_whole {w w' : ℤ} (h : (Msg.giroscopio i w v on).back ++ newline :: extra =
    (Msg.giroscopio i' w' v' on').back ++ newline :: extra') : v = v' ∧ on = on' := by
  have htail : ∀ on : Bool, utf8 (if on then " (ON - iniciando correcciones)" else " (OFF)") ++ [newline] =
      onTail on := by
    decide
  have hback : ∀ (i : Gyro) w v on extra, (Msg.giroscopio i w v on).back ++ newline :: extra =
      ld v ++ (onTail on ++ extra) := by
    intro _ _ _ on _
    rw [← htail on]
    simp only [Msg.back, List.append_assoc, List.singleton_append]
  rw [hback, hback] at h
  obtain ⟨hv, htext⟩ := ld_append_inj h (onTail_not_digit on) (onTail_not_digit on')
  exact ⟨hv, onTail_distinct _ _ trivial trivial _ _ htext⟩

theorem distancia_sure (h : ld d ++ actTail act = ld d' ++ actTail act') : d = d' ∧ act = act' := by
  rw [← List.append_nil (actTail act), ← List.append_nil (actTail act')] at h
  obtain ⟨hd, htext⟩ := ld_append_inj h (actTail_not_digit act) (actTail_not_digit act')
  exact ⟨hd, actTail_distinct _ _ trivial trivial _ _ htext⟩

theorem combustible_sure (h : ld g ++ (motorTail on ++ text) = ld g' ++ (motorTail on' ++ text')) :
    g = g' ∧ on = on' ∧ text = text' := by
  obtain ⟨hg, htext⟩ := ld_append_inj h (motorTail_not_digit on) (motorTail_not_digit on')
  obtain rfl := motorTail_distinct _ _ trivial trivial _ _ htext
  exact ⟨hg, rfl, List.append_cancel_left htext⟩

theorem combustible_whole {k k' : ℤ} (h : (Msg.combustible k g on p).back ++ newline :: extra =
    (Msg.combustible k' g' on' p').back ++ newline :: extra') : p = p' := by
  have hback : ∀ k g on p extra, (Msg.combustible k g on p).back ++ newline :: extra =
      utf8 " - potencia " ++ (potenciaTail p ++ extra) := by
    intro _ _ _ p _
    simp only [Msg.back, List.append_assoc]
    cases p <;> rfl
  rw [hback, hback] at h
  exact potenciaTail_distinct _ _ trivial trivial _ _ (List.append_cancel_left h)

end Pairs

/-- Lines that look the same tell the same of what cannot be cut, and of the rest if nothing
is cut. -/
theorem alike_of_shown {l l' : Line} (hl : l.IsInt) (hl' : l'.IsInt) (h : l.shown = l'.shown) :
    Alike l l' := by
  rw [Line.shown_eq hl, Line.shown_eq hl'] at h
  have hh : l.head = l'.head := head_distinct _ _ trivial trivial _ _ h
  rw [hh] at h
  have hrest := List.append_cancel_left h
  cases l with
  | mensaje m =>
    cases l' with
    | mensaje m' =>
      have hkin := kin_of_head hh
      cases hkin with
      | giroscopio =>
        simp only [Line.number, Line.rest, List.append_assoc] at hrest
        obtain ⟨rfl, htail⟩ := giroscopio_sure hrest
        refine .mensaje rfl fun hw hw' => ?_
        obtain ⟨extra, he⟩ := back_of_whole hw hl
        obtain ⟨extra', he'⟩ := back_of_whole hw' hl'
        rw [he, he'] at htail
        obtain ⟨rfl, rfl⟩ := giroscopio_whole htail
        rfl
      | distancia =>
        simp only [Line.number, Line.rest, List.append_nil] at hrest
        obtain ⟨rfl, rfl⟩ := distancia_sure hrest
        exact .refl
      | combustible =>
        simp only [Line.number, Line.rest, List.append_assoc] at hrest
        obtain ⟨rfl, rfl, htail⟩ := combustible_sure hrest
        refine .mensaje rfl fun hw hw' => ?_
        obtain ⟨extra, he⟩ := back_of_whole hw hl
        obtain ⟨extra', he'⟩ := back_of_whole hw' hl'
        rw [he, he'] at htail
        obtain rfl := combustible_whole htail
        rfl
      | refl => exact .refl
    | _ => cases m <;> cases hh
  | error | separador =>
    cases l' with
    | mensaje m' => cases m' <;> cases hh
    | _ => first
      | exact .refl
      | cases hh

/-! ## What the screen tells of a run -/

variable {C C' : State → Label → Prop} {s₀ s₀' : State} {tr tr' : List Label} {x x' : Link}
variable {heap heap' : ℕ → ℕ → Byte} {out out' : List Line}

theorem screen_eq (h : ∀ l ∈ out, l.IsInt) (heap : ℕ → ℕ → Byte) :
    screen heap out = out.flatMap Line.shown := by
  have hmap : (out.mapIdx fun n l => l.bytes (heap n)) = out.map Line.shown := by
    refine List.ext_getElem (by simp) fun n hn _ => ?_
    rw [List.getElem_mapIdx, List.getElem_map]
    exact Line.bytes_eq (h _ (List.getElem_mem _)) _
  rw [screen, hmap, List.flatMap_def]

theorem screen_message (heap : ℕ → ℕ → Byte) (m : Msg) :
    screen heap [.mensaje m] = printed (m.datagram (heap 0)) := by
  simp [screen, Line.bytes]

theorem opens_screen (out : List Line) : Opens (out.flatMap Line.shown) := by
  cases out with
  | nil => exact (by decide : none ≠ some newline)
  | cons l out => exact shown_opens l _

/-- The same screen has the same lines, whatever was left in the buffers. -/
theorem alike_of_screen (h : ∀ l ∈ out, l.IsInt) (h' : ∀ l ∈ out', l.IsInt)
    (hs : screen heap out = screen heap' out') : List.Forall₂ Alike out out' := by
  rw [screen_eq h, screen_eq h'] at hs
  have hne : ∀ l : Line, l.IsInt → l.shown ≠ [] := by
    intro l hl hnil
    rw [Line.shown_eq hl] at hnil
    exact l.head.bytes_ne_nil (List.append_eq_nil_iff.mp hnil).1
  refine (line_framed.flatMap hne (fun out _ => opens_screen out) h h' hs).imp ?_
  rintro l l' ⟨hl, hl', hshown⟩
  exact alike_of_shown hl hl' hshown

def Line.mensaje? : Line → Option Msg
  | mensaje m => some m
  | _ => none

/-- The messages that the dashboard has received. -/
def received (out : List Line) : List Msg := out.filterMap Line.mensaje?

theorem seen_of_alike (h : List.Forall₂ Alike out out') (hw : ∀ m ∈ received out, m.Whole)
    (hw' : ∀ m ∈ received out', m.Whole) :
    (received out).map Msg.seen = (received out').map Msg.seen := by
  induction h with
  | nil => rfl
  | @cons l l' out out' ha _ ih =>
    cases ha with
    | mensaje _ hseen =>
      have hm := hseen (hw _ List.mem_cons_self) (hw' _ List.mem_cons_self)
      have hrest := ih (fun m hm => hw m (List.mem_cons_of_mem _ hm))
        (fun m hm => hw' m (List.mem_cons_of_mem _ hm))
      exact congrArg₂ List.cons hm hrest
    | refl =>
      cases l with
      | mensaje m =>
        have hrest := ih (fun m hm => hw m (List.mem_cons_of_mem _ hm))
          (fun m hm => hw' m (List.mem_cons_of_mem _ hm))
        exact congrArg (m.seen :: ·) hrest
      | _ => exact ih hw hw'

theorem received_recvfrom (d : Dashboard) (m : Option Msg) :
    received (d.recvfrom m).out = received d.out ++ m.toList := by
  cases m <;> simp [Dashboard.recvfrom, received, Line.mensaje?]

theorem received_test (d : Dashboard) : received d.test.out = received d.out := by
  unfold Dashboard.test
  split <;> simp [received, Line.mensaje?]

/-- What was received and what is on its way is what was sent, in this order. -/
theorem received_queue (h : Link.Run C s₀ tr x) :
    received x.dash.out ++ x.queue = tr.filterMap sent := by
  induction h with
  | start => rfl
  | @controller tr x a s' _ _ _ ih =>
    cases ha : sent a <;> simp [← ih, ha]
  | receive _ _ hq ih => simp [received_recvfrom, ← ih, hq]
  | fail _ _ ih => simpa [received_recvfrom] using ih
  | test _ _ ih => simpa [received_test] using ih

theorem received_sent (h : Link.Run C s₀ tr x) : received x.dash.out <+: tr.filterMap sent :=
  ⟨x.queue, received_queue h⟩

theorem received_isInt (h : Link.Run C s₀ tr x) (hm : ∀ m ∈ tr.filterMap sent, m.IsInt) :
    ∀ l ∈ x.dash.out, l.IsInt := by
  intro l hl
  cases l with
  | mensaje m => exact hm m ((received_sent h).subset (List.mem_filterMap.mpr ⟨_, hl, rfl⟩))
  | _ => trivial

/-- Two runs with the same bytes on the screen: their lines correspond one to one, and tell
the same of everything that no cut takes away; if no value got more digits between its two
readings, the messages tell the same. What a screen tells was sent, in this order. -/
theorem told_by_screen (h : Link.Run C s₀ tr x) (h' : Link.Run C' s₀' tr' x')
    (hm : ∀ m ∈ tr.filterMap sent, m.IsInt) (hm' : ∀ m ∈ tr'.filterMap sent, m.IsInt)
    (hs : screen heap x.dash.out = screen heap' x'.dash.out) :
    List.Forall₂ Alike x.dash.out x'.dash.out ∧
      ((∀ m ∈ tr.filterMap sent, m.Whole) → (∀ m ∈ tr'.filterMap sent, m.Whole) →
        (received x.dash.out).map Msg.seen = (received x'.dash.out).map Msg.seen) ∧
      received x.dash.out <+: tr.filterMap sent ∧ received x'.dash.out <+: tr'.filterMap sent := by
  have halike := alike_of_screen (received_isInt h hm) (received_isInt h' hm') hs
  refine ⟨halike, fun hw hw' => ?_, received_sent h, received_sent h'⟩
  exact seen_of_alike halike (fun m hm => hw m ((received_sent h).subset hm))
    (fun m hm => hw' m ((received_sent h').subset hm))

/-- One report of the alarms, sent early and sent late. -/
theorem same_screen : ∃ tr x tr' x', Link.Run Any (init ⟨10, 100, fun _ => 0, 0⟩) tr x ∧
    Link.Run Any (init ⟨10, 100, fun _ => 0, 0⟩) tr' x' ∧ tr.length < tr'.length ∧
    screen (fun _ _ => 0) x.dash.out = screen (fun _ _ => 1) x'.dash.out ∧
    received x.dash.out = [.sinAlarmas] ∧ List.Forall₂ Alike x.dash.out x'.dash.out ∧
    ((∀ m ∈ tr.filterMap sent, m.Whole) → (∀ m ∈ tr'.filterMap sent, m.Whole) →
      (received x.dash.out).map Msg.seen = (received x'.dash.out).map Msg.seen) ∧
    received x.dash.out <+: tr.filterMap sent ∧ received x'.dash.out <+: tr'.filterMap sent := by
  have hrun : ∃ tr s, sistema.Run Any (init ⟨10, 100, fun _ => 0, 0⟩) tr s ∧
      tr.length = 34 ∧ tr.filterMap sent = [.sinAlarmas] := by
    refine run_of_check (boot ++ manualReport) ?_
    decide +kernel
  have hrun' : ∃ tr s, sistema.Run Any (init ⟨10, 100, fun _ => 0, 0⟩) tr s ∧
      tr.length = 37 ∧ tr.filterMap sent = [.sinAlarmas] := by
    refine run_of_check (boot ++ burst (.pricipalEngineThread 0) 3 ++ manualReport) ?_
    decide +kernel
  obtain ⟨tr, s, hr, hl, hm⟩ := hrun
  obtain ⟨tr', s', hr', hl', hm'⟩ := hrun'
  have h := link_of_run hr
  have h' := link_of_run hr'
  rw [hm] at h
  rw [hm'] at h'
  have hx := drain_run rfl h
  have hx' := drain_run rfl h'
  have hs : screen (fun _ _ => 0) [.mensaje .sinAlarmas] =
      screen (fun _ _ => 1) [.mensaje .sinAlarmas] := by
    rw [screen_message, screen_message]
    rfl
  refine ⟨tr, _, tr', _, hx, hx', by omega, hs, rfl, told_by_screen hx hx' ?_ ?_ hs⟩
  · rw [hm]
    decide
  · rw [hm']
    decide

/-- The simulator turns a gyroscope between the two readings of its report. -/
theorem number_untold : ∃ tr x tr' x', Link.Run Any (init ⟨10, 100, fun _ => 0, 0⟩) tr x ∧
    Link.Run Any (init ⟨10, 100, fun _ => 0, 0⟩) tr' x' ∧
    (∀ heap, screen heap x.dash.out = screen heap x'.dash.out) ∧
    received x.dash.out = [.giroscopio 0 0 12345670 false] ∧
    received x'.dash.out = [.giroscopio 0 0 12345678 false] := by
  have hrun : ∃ tr s, sistema.Run Any (init ⟨10, 100, fun _ => 0, 0⟩) tr s ∧
      tr.filterMap sent = [.giroscopio 0 0 12345670 false] := by
    refine run_of_check (boot ++ burst (.signalGyro 0) 8 ++ [.env (.gyro 0 12345670)] ++
      burst (.signalGyro 0) 4) ?_
    decide +kernel
  have hrun' : ∃ tr s, sistema.Run Any (init ⟨10, 100, fun _ => 0, 0⟩) tr s ∧
      tr.filterMap sent = [.giroscopio 0 0 12345678 false] := by
    refine run_of_check (boot ++ burst (.signalGyro 0) 8 ++ [.env (.gyro 0 12345678)] ++
      burst (.signalGyro 0) 4) ?_
    decide +kernel
  obtain ⟨tr, s, hr, hm⟩ := hrun
  obtain ⟨tr', s', hr', hm'⟩ := hrun'
  have h := link_of_run hr
  have h' := link_of_run hr'
  rw [hm] at h
  rw [hm'] at h'
  refine ⟨tr, _, tr', _, drain_run rfl h, drain_run rfl h', fun heap => ?_, rfl, rfl⟩
  show screen heap [.mensaje (.giroscopio 0 0 12345670 false)] =
    screen heap [.mensaje (.giroscopio 0 0 12345678 false)]
  rw [screen_message, screen_message, digits_lost]

end Sistema
