import OnePass.Scope
import OnePass.Token

/-!
# The log of a compilation

What a compilation reports about its work, as values that are kept also when it fails.

* `LogRecord` — the records;
* `LogRecord.level`, `LogRecord.message` — how they are shown.
-/

namespace OnePass

/-- How important a record is. -/
inductive LogLevel where
  | warn
  | info
  | debug
  | trace
deriving DecidableEq, Repr, Inhabited

namespace LogLevel

def text : LogLevel → String
  | warn => "WARN"
  | info => "INFO"
  | debug => "DEBUG"
  | trace => "TRACE"

def ofVerbosity : Nat → LogLevel
  | 0 => warn
  | 1 => info
  | 2 => debug
  | _ => trace

def rank : LogLevel → Nat
  | warn => 0
  | info => 1
  | debug => 2
  | trace => 3

end LogLevel

/-- What the value of an expression comes from. -/
inductive Origin where
  | literal
  | identifier
  | compound
deriving DecidableEq, Repr, Inhabited

def Origin.text : Origin → String
  | literal => "Literal"
  | identifier => "Identifier"
  | compound => "Compound"

/-- What is reported about a compilation. -/
inductive LogRecord where
  | tokenRead (token : Token)
  | scopeCreated (name : String) (kind : ScopeKind) (parent : Nat)
  | scopeEntered (name : String)
  | scopeLeft (name : String)
  | builtinsRegistered (count : Nat)
  | callRecorded (name : String) (callId : Nat)
  | expressionTyped (ty : Ty) (origin : Origin)
  | leftConverted
  | rightConverted
  | hoisted (target loop : String)
  | functionDefined (name : String) (parameters : Nat)
  | parsed (instructions scopes calls : Nat)
  | callsChecked (count : Nat)
  | scaffoldRemoved (callId : Nat)
  | rendering (instructions : Nat)
  | bodyWritten (builtin : String)
  | finished (scopes calls bytes : Nat)
deriving DecidableEq, Repr

namespace LogRecord

def level : LogRecord → LogLevel
  | tokenRead _ | scopeCreated .. | builtinsRegistered _ | callRecorded .. | expressionTyped .. | leftConverted
  | rightConverted | bodyWritten _ => .trace
  | scopeEntered _ | scopeLeft _ | hoisted .. | functionDefined .. | parsed .. | callsChecked _
  | scaffoldRemoved _ | rendering _ => .debug
  | finished .. => .info

def message : LogRecord → String
  | tokenRead token => s!"トークン: {token.text}"
  | scopeCreated name kind parent => s!"スコープ作成: {name} ({kind.text}, 親 {parent})"
  | scopeEntered name => s!"スコープに入る: {name}"
  | scopeLeft name => s!"スコープから出る: {name}"
  | builtinsRegistered count => s!"組み込み関数を{count}個登録しました"
  | callRecorded name callId => s!"呼び出しを記録: {name} (#{callId})"
  | expressionTyped ty origin => s!"式を評価: {ty.text} ({origin.text})"
  | leftConverted => "左辺に実行時の Int→Double 変換を挿入"
  | rightConverted => "右辺に実行時の Int→Double 変換を追加"
  | hoisted target loop => s!"変数 {target} の宣言をループ {loop} の前に巻き上げました"
  | functionDefined name parameters => s!"関数 {name} を定義（パラメータ{parameters}個）"
  | parsed instructions scopes calls =>
      s!"構文解析完了: 命令{instructions}個, スコープ{scopes}個, 呼び出し{calls}件"
  | callsChecked count => s!"{count}件の呼び出しを検証しました"
  | scaffoldRemoved callId => s!"Void 呼び出し #{callId} の結果破棄を除去しました"
  | rendering instructions => s!"コード生成開始: 命令{instructions}個"
  | bodyWritten builtin => s!"組み込み関数 {builtin} の本体を出力します"
  | finished scopes calls bytes =>
      s!"コンパイル完了: スコープ{scopes}個, 呼び出し{calls}件, 出力{bytes}バイト"

def text (record : LogRecord) : String := s!"{record.level.text} {record.message}"

end LogRecord

end OnePass
