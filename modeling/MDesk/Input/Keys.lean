import Mathlib.Algebra.Group.Nat.Defs
import MDesk.Core.Held
import MDesk.Core.Text
import MDesk.Core.Utf8

/-!
# Keys and key events

The keys of the local keyboard, as they are listened to, and the key events that are sent to the
peer.
-/

namespace MDesk

open Core

namespace Keyboard

/-- The keys that the translation knows by name, and all others by their number. -/
inductive Key where
  | alt | altGr | backspace | capsLock | controlLeft | controlRight | delete | downArrow | endKey
  | escape | f1 | f2 | f3 | f4 | f5 | f6 | f7 | f8 | f9 | f10 | f11 | f12 | home | leftArrow
  | metaLeft | metaRight | pageDown | pageUp | returnKey | rightArrow | shiftLeft | shiftRight
  | space | tab | upArrow | printScreen | scrollLock | pause | numLock | backQuote | num0 | num1
  | num2 | num3 | num4 | num5 | num6 | num7 | num8 | num9 | minus | equal | keyA | keyB | keyC
  | keyD | keyE | keyF | keyG | keyH | keyI | keyJ | keyK | keyL | keyM | keyN | keyO | keyP | keyQ
  | keyR | keyS | keyT | keyU | keyV | keyW | keyX | keyY | keyZ | leftBracket | rightBracket
  | semiColon | quote | backSlash | comma | dot | slash | insert | kpReturn | kpMinus | kpPlus
  | kpMultiply | kpDivide | kpDecimal | kp0 | kp1 | kp2 | kp3 | kp4 | kp5 | kp6 | kp7 | kp8 | kp9
  | apps | cancel | clear | kana | hangul | junja | final | hanja | hanji | lang2 | print | select
  | execute | help | sleep | separator
  | unknown (code : Nat)
deriving DecidableEq

/-- The control keys of the protocol that the translation sends. -/
inductive ControlKey where
  | alt | backspace | capsLock | control | delete | downArrow | endKey | escape | f1 | f2 | f3 | f4
  | f5 | f6 | f7 | f8 | f9 | f10 | f11 | f12 | home | leftArrow | metaKey | pageDown | pageUp
  | returnKey | rightArrow | shift | space | tab | upArrow | numpad0 | numpad1 | numpad2 | numpad3
  | numpad4 | numpad5 | numpad6 | numpad7 | numpad8 | numpad9 | cancel | clear | pause | kana
  | hangul | junja | final | hanja | convert | select | print | execute | snapshot | insert | help
  | sleep | separator | numpadEnter | divide | multiply | decimal | subtract | add | apps | rAlt
  | rControl | rShift | rWin | numLock | ctrlAltDel | lockScreen
deriving DecidableEq

inductive EventType where
  | keyPress (key : Key)
  | keyRelease (key : Key)
  | other
deriving DecidableEq

structure UnicodeInfo where
  name : Option (List Char) := none
  isDead : Bool := false
deriving DecidableEq

/-- An event of the local keyboard. -/
structure Event where
  eventType : EventType
  unicode : Option UnicodeInfo := none
  platformCode : Nat := 0
  positionCode : Nat := 0
  usbHid : Nat := 0
deriving DecidableEq

inductive KeyboardMode where
  | legacy
  | map
  | translate
deriving DecidableEq

/-- `key_event::Union`. -/
inductive KeyUnion where
  | controlKey (key : ControlKey)
  | chr (code : Nat)
  | seq (text : List Char)
  | win2winHotkey (code : Nat)
deriving DecidableEq

structure KeyEvent where
  mode : KeyboardMode
  down : Bool := false
  press : Bool := false
  union : Option KeyUnion := none
  modifiers : List ControlKey := []
deriving DecidableEq

/-- What a key event presses on the side of the peer. -/
inductive RemoteKey where
  | controlKey (key : ControlKey)
  | chr (code : Nat)
  | hotkey (keycode : Nat)
deriving DecidableEq

/-- A hot key has the key code in its high word, and the character in its low one. -/
def KeyUnion.remoteKey : KeyUnion → Option RemoteKey
  | .controlKey key => some (.controlKey key)
  | .chr code => some (.chr code)
  | .seq _ => none
  | .win2winHotkey code => some (.hotkey (code / 2 ^ 16))

/-- A key event presses its key or releases it. Text presses nothing. -/
def KeyEvent.stroke (e : KeyEvent) : Option (RemoteKey × Bool) :=
  (e.union.bind KeyUnion.remoteKey).map fun key => (key, e.down)

/-- The keys that key events leave pressed on the side of the peer. -/
def leftDown (sent : List KeyEvent) : RemoteKey → Bool := held (sent.filterMap KeyEvent.stroke)

def isModifier (key : Key) : Bool :=
  key ∈ [.shiftLeft, .shiftRight, .controlLeft, .controlRight, .metaLeft, .metaRight, .alt, .altGr]

def isNumpadRdevKey (key : Key) : Bool :=
  key ∈ [.kp0, .kp1, .kp2, .kp3, .kp4, .kp5, .kp6, .kp7, .kp8, .kp9, .kpMinus, .kpMultiply,
    .kpDivide, .kpPlus, .kpDecimal]

def isLetterRdevKey (key : Key) : Bool :=
  key ∈ [.keyA, .keyB, .keyC, .keyD, .keyE, .keyF, .keyG, .keyH, .keyI, .keyJ, .keyK, .keyL, .keyM,
    .keyN, .keyO, .keyP, .keyQ, .keyR, .keyS, .keyT, .keyU, .keyV, .keyW, .keyX, .keyY, .keyZ]

def isLetterRdevKeyEx (key : Key) : Bool :=
  key ∈ [.leftBracket, .rightBracket, .semiColon, .quote, .comma, .dot]

/-- The key of an event, if it is one of a key. -/
def Event.key (e : Event) : Option Key :=
  match e.eventType with
  | .keyPress key | .keyRelease key => some key
  | .other => none

def isNumpadKey (e : Event) : Bool := e.key.any isNumpadRdevKey

def isLetterKey4LockModes (e : Event) : Bool :=
  e.key.any fun key => isLetterRdevKey key || isLetterRdevKeyEx key

def isPress (e : Event) : Bool :=
  match e.eventType with
  | .keyPress _ => true
  | _ => false

/-- The control key that a key stands for in the legacy mode. -/
def controlKeyOf : Key → Option ControlKey
  | .alt => some .alt
  | .altGr => some .rAlt
  | .backspace => some .backspace
  | .controlLeft => some .control
  | .controlRight => some .rControl
  | .downArrow => some .downArrow
  | .escape => some .escape
  | .f1 => some .f1
  | .f10 => some .f10
  | .f11 => some .f11
  | .f12 => some .f12
  | .f2 => some .f2
  | .f3 => some .f3
  | .f4 => some .f4
  | .f5 => some .f5
  | .f6 => some .f6
  | .f7 => some .f7
  | .f8 => some .f8
  | .f9 => some .f9
  | .leftArrow => some .leftArrow
  | .metaLeft => some .metaKey
  | .metaRight => some .rWin
  | .returnKey => some .returnKey
  | .rightArrow => some .rightArrow
  | .shiftLeft => some .shift
  | .shiftRight => some .rShift
  | .space => some .space
  | .tab => some .tab
  | .upArrow => some .upArrow
  | .delete => some .delete
  | .apps => some .apps
  | .cancel => some .cancel
  | .clear => some .clear
  | .kana => some .kana
  | .hangul => some .hangul
  | .junja => some .junja
  | .final => some .final
  | .hanja => some .hanja
  | .hanji => some .hanja
  | .lang2 => some .convert
  | .print => some .print
  | .select => some .select
  | .execute => some .execute
  | .printScreen => some .snapshot
  | .help => some .help
  | .sleep => some .sleep
  | .separator => some .separator
  | .kpReturn => some .numpadEnter
  | .kp0 => some .numpad0
  | .kp1 => some .numpad1
  | .kp2 => some .numpad2
  | .kp3 => some .numpad3
  | .kp4 => some .numpad4
  | .kp5 => some .numpad5
  | .kp6 => some .numpad6
  | .kp7 => some .numpad7
  | .kp8 => some .numpad8
  | .kp9 => some .numpad9
  | .kpDivide => some .divide
  | .kpMultiply => some .multiply
  | .kpDecimal => some .decimal
  | .kpMinus => some .subtract
  | .kpPlus => some .add
  | .home => some .home
  | .endKey => some .endKey
  | .insert => some .insert
  | .pageUp => some .pageUp
  | .pageDown => some .pageDown
  | .pause => some .pause
  | _ => none

/-- The character of a key that produces none itself. -/
def chrOf : Key → Char
  | .num1 => '1'
  | .num2 => '2'
  | .num3 => '3'
  | .num4 => '4'
  | .num5 => '5'
  | .num6 => '6'
  | .num7 => '7'
  | .num8 => '8'
  | .num9 => '9'
  | .num0 => '0'
  | .keyA => 'a'
  | .keyB => 'b'
  | .keyC => 'c'
  | .keyD => 'd'
  | .keyE => 'e'
  | .keyF => 'f'
  | .keyG => 'g'
  | .keyH => 'h'
  | .keyI => 'i'
  | .keyJ => 'j'
  | .keyK => 'k'
  | .keyL => 'l'
  | .keyM => 'm'
  | .keyN => 'n'
  | .keyO => 'o'
  | .keyP => 'p'
  | .keyQ => 'q'
  | .keyR => 'r'
  | .keyS => 's'
  | .keyT => 't'
  | .keyU => 'u'
  | .keyV => 'v'
  | .keyW => 'w'
  | .keyX => 'x'
  | .keyY => 'y'
  | .keyZ => 'z'
  | .comma => ','
  | .dot => '.'
  | .semiColon => ';'
  | .quote => Char.ofNat 0x27
  | .leftBracket => '['
  | .rightBracket => ']'
  | .slash => '/'
  | .backSlash => Char.ofNat 0x5C
  | .minus => '-'
  | .equal => '='
  | .backQuote => Char.ofNat 0x60
  | _ => Char.ofNat 0

/-- The key of a numeric pad without its lock. -/
def unlockedNumpadKey : Key → Key
  | .kp0 => .insert
  | .kpDecimal => .delete
  | .kp1 => .endKey
  | .kp2 => .downArrow
  | .kp3 => .pageDown
  | .kp4 => .leftArrow
  | .kp5 => .clear
  | .kp6 => .rightArrow
  | .kp7 => .home
  | .kp8 => .upArrow
  | .kp9 => .pageUp
  | key => key

end Keyboard

end MDesk
