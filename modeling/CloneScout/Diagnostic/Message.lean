import CloneScout.Diagnostic.Basic

/-!
# Wording of diagnostics

One template for each code and language. `{0}`, `{1}`, … stand for the arguments.
-/

namespace CloneScout.Diagnostic

namespace Code

def english : Code → String
  | .invalidUtf8 => "invalid UTF-8 sequence at byte offset {0} (0x{1})"
  | .unterminatedString => "unterminated string literal (opened with {0})"
  | .invalidNumber => "invalid numeric literal '{0}'"
  | .inconsistentDedent => "unindent does not match any outer indentation level"
  | .unexpectedIndent => "unexpected indent"
  | .expectedIndent => "expected an indented block"
  | .unmatchedBracket => "unmatched '{0}'"
  | .strayBackslash => "unexpected character after line continuation character"
  | .expectedToken => "expected '{0}'"
  | .unexpectedToken => "unexpected token '{0}'"
  | .unexpectedEof => "unexpected end of file (expected '{0}')"
  | .tooManyErrors => "too many errors emitted; parsing stopped"
  | .parseTimeout => "parsing did not finish within {0} ms"
  | .invalidAssignTarget => "cannot assign to {0}"
  | .invalidDelTarget => "cannot delete {0}"
  | .invalidAnnotatedTarget => "only single target (not {0}) can be annotated"
  | .invalidAugAssignTarget => "'{0}' is an illegal expression for augmented assignment"
  | .positionalAfterKeyword => "positional argument follows keyword argument"
  | .nonDefaultAfterDefault => "non-default argument follows default argument"
  | .duplicateStarParam => "* argument may appear only once"
  | .bareStarWithoutNamed => "named arguments must follow bare *"
  | .fStringUnmatchedBrace => "f-string: single '{0}' is not allowed"
  | .fStringEmptyExpr => "f-string: empty expression not allowed"
  | .invalidPattern => "invalid pattern starting at '{0}'"
  | .fileReadFailed => "cannot read '{0}': {1}"
  | .scanInvalidRoot => "invalid root path '{0}': {1}"
  | .scanSensitiveRoot => "cannot scan sensitive directory '{0}'"
  | .scanTooManyFiles =>
    "file count exceeds limit of {0}; use a more specific root or raise the limit"
  | .configParseFailed => "config: {0}"
  | .configUnknownKey => "config: unknown key '{0}' ignored"
  | .configInvalidValue => "config: '{0}' expects {1}"

def korean : Code → String
  | .invalidUtf8 => "올바르지 않은 UTF-8 시퀀스입니다 (byte offset {0}, 0x{1})"
  | .unterminatedString => "문자열 리터럴이 닫히지 않았습니다 (시작: {0})"
  | .invalidNumber => "잘못된 숫자 리터럴입니다: '{0}'"
  | .inconsistentDedent => "내어쓰기가 바깥 들여쓰기 수준과 일치하지 않습니다"
  | .unexpectedIndent => "예상하지 못한 들여쓰기입니다"
  | .expectedIndent => "들여쓰기된 블록이 필요합니다"
  | .unmatchedBracket => "짝이 맞지 않는 '{0}' 입니다"
  | .strayBackslash => "줄 연결 문자 '\\' 뒤에 예상하지 못한 문자가 있습니다"
  | .expectedToken => "'{0}' 가 필요합니다"
  | .unexpectedToken => "예상하지 못한 토큰 '{0}'"
  | .unexpectedEof => "파일이 예상보다 일찍 끝났습니다 ('{0}' 필요)"
  | .tooManyErrors => "오류가 너무 많아 파싱을 중단했습니다"
  | .parseTimeout => "파싱이 {0} ms 안에 끝나지 않았습니다"
  | .invalidAssignTarget => "{0} 에는 대입할 수 없습니다"
  | .invalidDelTarget => "{0} 는 삭제할 수 없습니다"
  | .invalidAnnotatedTarget => "단일 대상만 annotation 할 수 있습니다 ({0} 불가)"
  | .invalidAugAssignTarget => "'{0}' 는 복합 대입의 대상이 될 수 없습니다"
  | .positionalAfterKeyword => "키워드 인자 뒤에 위치 인자가 올 수 없습니다"
  | .nonDefaultAfterDefault => "기본값 있는 파라미터 뒤에 기본값 없는 파라미터가 올 수 없습니다"
  | .duplicateStarParam => "* 파라미터는 한 번만 올 수 있습니다"
  | .bareStarWithoutNamed => "단독 * 뒤에는 키워드 전용 파라미터가 있어야 합니다"
  | .fStringUnmatchedBrace => "f-string: 단독 '{0}' 는 허용되지 않습니다"
  | .fStringEmptyExpr => "f-string: 빈 표현식은 허용되지 않습니다"
  | .invalidPattern => "잘못된 패턴입니다: '{0}'"
  | .fileReadFailed => "'{0}' 를 읽을 수 없습니다: {1}"
  | .scanInvalidRoot => "잘못된 루트 경로 '{0}': {1}"
  | .scanSensitiveRoot => "민감한 시스템 디렉터리 '{0}' 는 스캔할 수 없습니다"
  | .scanTooManyFiles => "파일 수가 제한({0})을 넘었습니다. 루트를 좁히거나 제한을 늘리세요"
  | .configParseFailed => "설정: {0}"
  | .configUnknownKey => "설정: 알 수 없는 키 '{0}' 를 무시합니다"
  | .configInvalidValue => "설정: '{0}' 에는 {1} 값이 필요합니다"

/-- The template of a code. -/
def template (c : Code) : Language → Text
  | .english => utf8 c.english
  | .korean => utf8 c.korean

end Code

/-- The placeholder of argument number `i`. -/
def placeholder (i : Nat) : Text := utf8 "\x7b" ++ Text.ofNat i ++ utf8 "\x7d"

/-- Puts the arguments number `i`, `i + 1`, … in, one after the other. -/
def fill (i : Nat) : List Text → (template : Text) → Text
  | [], t => t
  | a :: rest, t => fill (i + 1) rest (Text.replaceAll (placeholder i) a t)

/-- The message of a diagnostic. -/
def message (d : Diagnostic) (l : Language) : Text := fill 0 d.args (d.code.template l)

end CloneScout.Diagnostic
