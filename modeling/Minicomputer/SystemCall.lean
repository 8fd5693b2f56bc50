import Minicomputer.Word

/-!
# System calls

The calls that an operating system may serve, by selector and by name.
-/

set_option autoImplicit false

namespace Minicomputer

inductive SystemCall where
  | exit | rint | wint | rstr | wchr | rchr | wstr | printf | atoi
  | rfile | wfile | cwd | chdir | dirent | dfile
  | rnd | sleep | timer
  | fbreset | fbstat | fbset | fbline | fbrect | fbflush | joystick | scolor
  | memcpy
  | drawimg | drawimgsz | drawimgclip
  | error
  deriving DecidableEq, Repr

namespace SystemCall

def all : List SystemCall :=
  [exit, rint, wint, rstr, wchr, rchr, wstr, printf, atoi,
   rfile, wfile, cwd, chdir, dirent, dfile,
   rnd, sleep, timer,
   fbreset, fbstat, fbset, fbline, fbrect, fbflush, joystick, scolor,
   memcpy,
   drawimg, drawimgsz, drawimgclip,
   error]

def selector : SystemCall → Byte
  | exit => 0x00 | rint => 0x01 | wint => 0x02 | rstr => 0x03 | wchr => 0x04
  | rchr => 0x05 | wstr => 0x06 | printf => 0x07 | atoi => 0x08
  | rfile => 0x10 | wfile => 0x11 | cwd => 0x12 | chdir => 0x13 | dirent => 0x14 | dfile => 0x15
  | rnd => 0x20 | sleep => 0x21 | timer => 0x22
  | fbreset => 0x30 | fbstat => 0x31 | fbset => 0x32 | fbline => 0x33 | fbrect => 0x34
  | fbflush => 0x35 | joystick => 0x3A | scolor => 0x3B
  | memcpy => 0x40
  | drawimg => 0x50 | drawimgsz => 0x51 | drawimgclip => 0x52
  | error => 0xFF

def name : SystemCall → String
  | exit => "exit" | rint => "rint" | wint => "wint" | rstr => "rstr" | wchr => "wchr"
  | rchr => "rchr" | wstr => "wstr" | printf => "printf" | atoi => "atoi"
  | rfile => "rfile" | wfile => "wfile" | cwd => "cwd" | chdir => "chdir"
  | dirent => "dirent" | dfile => "dfile"
  | rnd => "rnd" | sleep => "sleep" | timer => "timer"
  | fbreset => "fbreset" | fbstat => "fbstat" | fbset => "fbset" | fbline => "fbline"
  | fbrect => "fbrect" | fbflush => "fbflush" | joystick => "joystick" | scolor => "scolor"
  | memcpy => "memcpy"
  | drawimg => "drawimg" | drawimgsz => "drawimgsz" | drawimgclip => "drawimgclip"
  | error => "error"

def ofSelector? (b : Byte) : Option SystemCall := all.find? (·.selector == b)

/-- Names are recognised in any letter case. -/
def ofName? (s : String) : Option SystemCall := all.find? (·.name == s.toLower)

theorem mem_all (c : SystemCall) : c ∈ all := by cases c <;> decide

theorem ofSelector?_selector (c : SystemCall) : ofSelector? c.selector = some c := by
  cases c <;> rfl

end SystemCall

end Minicomputer
