import Volley.Random.Draw
import Volley.Setup

namespace Volley

structure Corpus where
  phrases : List String
  phrases_nonempty : phrases ≠ []
  phrase_nonempty : ∀ p ∈ phrases, p ≠ ""
  deriving Repr, DecidableEq

namespace Corpus

def make (phrases : List String) : Except SetupError Corpus :=
  if h : phrases ≠ [] then
    if hp : ∀ p ∈ phrases, p ≠ "" then .ok ⟨phrases, h, hp⟩
    else .error (.emptyPhrase (phrases.findIdx (· = "")))
  else .error .emptyCorpus

def builtin : Corpus where
  phrases := [
    "你好啊，今天过得怎么样？",
    "最近在看什么好看的电视剧吗？",
    "今天天气真不错，适合出去走走。",
    "吃饭了吗？",
    "工作好忙啊，感觉快累垮了。",
    "周末有什么计划吗？",
    "哈哈，这个笑话太搞笑了！",
    "我刚学会做一道新菜，味道还不错。",
    "你去过上海吗？那边的外滩很漂亮。",
    "最近压力有点大，想找人聊聊天。",
    "听说新上映的电影很不错，要不要一起去看？",
    "今天学到了一个新知识，感觉很有意思。",
    "你的新发型真好看！",
    "明天一起去爬山吧？",
    "这个项目什么时候能完成？"]
  phrases_nonempty := by simp
  phrase_nonempty := by simp

def pick (c : Corpus) : Draw String := Draw.choose .full c.phrases

end Corpus

end Volley
