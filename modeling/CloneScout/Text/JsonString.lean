import CloneScout.Text.Basic

/-!
# JSON string bodies

Quote, backslash and control characters are escaped; every byte from 0x80 on passes through.
-/

namespace CloneScout.JsonString

/-- One byte of a JSON string body. -/
def byte (b : UInt8) : Text :=
  if b = ascii '"' then utf8 "\\\""
  else if b = ascii '\\' then utf8 "\\\\"
  else if b = 10 then utf8 "\\n"
  else if b = 13 then utf8 "\\r"
  else if b = 9 then utf8 "\\t"
  else if b = 8 then utf8 "\\b"
  else if b = 12 then utf8 "\\f"
  else if b < 0x20 then utf8 "\\u" ++ Text.hex 4 b.toNat
  else [b]

/-- The body of a JSON string, without its quotes. -/
def escape (t : Text) : Text := t.flatMap byte

/-- A JSON string. -/
def quote (t : Text) : Text := ascii '"' :: escape t ++ [ascii '"']

end CloneScout.JsonString
