import ClosureMachine.Text.CharRange
import ClosureMachine.Text.Width.Character

/-!
# Ligatures

The letters of several scripts that fuse with a neighbour, so that the two take fewer columns than
they would take apart. A ligature is read from its end: `Letter` says what its last part is, and
`Letter.before` what a character in front of that part makes of it.
-/

namespace ClosureMachine.Ligature

/-- The letters of Arabic that form the group of alef. -/
def alef : List CharRange :=
  [(0x622, 0x623), (0x625, 0x625), (0x627, 0x627), (0x671, 0x673), (0x675, 0x675),
   (0x773, 0x774), (0x870, 0x882)]

/-- The letters of Arabic that form the group of lam. -/
def lam : List CharRange :=
  [(0x644, 0x644), (0x6b5, 0x6b8), (0x76a, 0x76a), (0x8a6, 0x8a6), (0x8c7, 0x8c7)]

/-- The characters of no width over which two letters of Arabic do not join. -/
def joinBreakers : List CharRange :=
  [(0x605, 0x605), (0x890, 0x891), (0x8e2, 0x8e2), (0x9be, 0x9be), (0x9d7, 0x9d7),
   (0xb3e, 0xb3e), (0xb57, 0xb57), (0xbbe, 0xbbe), (0xbd7, 0xbd7), (0xcc0, 0xcc0),
   (0xcc2, 0xcc2), (0xcc7, 0xcc8), (0xcca, 0xccb), (0xcd5, 0xcd6), (0xd3e, 0xd3e),
   (0xd4e, 0xd4e), (0xd57, 0xd57), (0xdcf, 0xdcf), (0xddf, 0xddf), (0x1160, 0x11ff),
   (0x180e, 0x180e), (0x1b35, 0x1b35), (0x1b3b, 0x1b3b), (0x1b3d, 0x1b3d), (0x1b43, 0x1b43),
   (0x200c, 0x200d), (0x2065, 0x2069), (0x302e, 0x302f), (0x3164, 0x3164), (0xa8fa, 0xa8fa),
   (0xd7b0, 0xd7c6), (0xd7cb, 0xd7fb), (0xff9e, 0xffa0), (0xfff0, 0xfff8), (0x111c2, 0x111c3),
   (0x1133e, 0x1133e), (0x11357, 0x11357), (0x114b0, 0x114b0), (0x114bd, 0x114bd),
   (0x115af, 0x115af), (0x11930, 0x11930), (0x1193f, 0x1193f), (0x11941, 0x11941),
   (0x11a3a, 0x11a3a), (0x11a84, 0x11a89), (0x11d46, 0x11d46), (0x11f02, 0x11f02),
   (0x1d165, 0x1d165), (0x1d16e, 0x1d172), (0xe0000, 0xe0000), (0xe0002, 0xe001f),
   (0xe0080, 0xe00ff), (0xe01f0, 0xe0fff)]

/-- The letters of Khmer that may stand below another. -/
def stackable : List CharRange :=
  [(0x1780, 0x1782), (0x1784, 0x1787), (0x1789, 0x178c), (0x178e, 0x1793), (0x1795, 0x1798),
   (0x179b, 0x179d), (0x17a0, 0x17a0), (0x17a2, 0x17a2), (0x17a7, 0x17a7), (0x17ab, 0x17ac),
   (0x17af, 0x17af)]

def tifinagh : List CharRange :=
  [(0x2d31, 0x2d65), (0x2d6f, 0x2d6f)]

/-- The combining marks that are ignored by default: a ligature holds across them. -/
def ignorableMarks : List CharRange :=
  [(0x34f, 0x34f), (0x17b4, 0x17b5), (0x180b, 0x180d), (0x180f, 0x180f), (0xfe00, 0xfe0f),
   (0xe0100, 0xe01ef)]

def joinsAcross (c : Char) : Bool :=
  Width.isZeroWidth c && !CharRange.covers joinBreakers c

/-- What a ligature ends with. -/
inductive Letter where
  | lamed
  | ya
  /-- The vowel sign i of Buginese, joined to a ya. -/
  | vowelYa
  | consonant
  /-- The joiner of Tifinagh and a consonant. -/
  | boundConsonant
  /-- One of the two tone letters of Lisu that stand second. -/
  | tone
  /-- The letter i of the Orkhon inscriptions. -/
  | orkhonI
  /-- A letter of Khmer that may stand below another. -/
  | stackable
  deriving DecidableEq

/-- The end of a ligature that a character is by itself. -/
def Letter.ofChar? (c : Char) : Option Letter :=
  if c = '\u05dc' then some .lamed
  else if c = '\u1a10' then some .ya
  else if CharRange.covers tifinagh c then some .consonant
  else if CharRange.has (0xa4fc, 0xa4fd) c.toNat then some .tone
  else if c.toNat = 0x10c03 then some .orkhonI
  else if CharRange.covers Ligature.stackable c then some .stackable
  else none

/-- What `c` makes of the end of a ligature behind it: the columns it adds, and the end of a
longer one unless the ligature is complete. `joined` says whether a joiner of zero width stands
between the two. It is `none` if `c` does not fuse. -/
def Letter.before (c : Char) (joined : Bool) : Letter → Option (Int × Option Letter)
  | .lamed => if joined && c = '\u05d0' then some (0, none) else none
  | .ya => if joined && c = '\u1a17' then some (0, some .vowelYa) else none
  | .vowelYa => if c = '\u1a15' then some (0, none) else none
  | .consonant =>
    if c = '\u2d7f' then some (1, some .boundConsonant)
    else if joined && CharRange.covers tifinagh c then some (0, none)
    else none
  | .boundConsonant => if CharRange.covers tifinagh c then some (-1, none) else none
  | .tone => if CharRange.has (0xa4f8, 0xa4fb) c.toNat then some (0, none) else none
  | .orkhonI => if joined && c.toNat = 0x10c32 then some (0, none) else none
  | .stackable => if c = '\u17d2' then some (-1, none) else none

end ClosureMachine.Ligature
