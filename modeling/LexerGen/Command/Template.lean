/-! The scanner that generated source starts with unless another template is given. It works on the
tables that follow it. -/

namespace LexerGen.Command

def defaultTemplate : String :=
"// A maximal-munch scanner over the tables generated below.

#[derive(Copy, Clone, Debug, Eq, PartialEq)]
pub struct Token<'a> \x7b
  pub tag  : &'a str,
  pub text : &'a str,
  pub start: usize,
\x7d

#[derive(Copy, Clone, Debug, Eq, PartialEq)]
pub enum LexError \x7b
  NoMatch \x7b position: usize \x7d,
  UnexpectedEnd \x7b start: usize \x7d,
\x7d

pub struct Lexer<'a> \x7b
  content  : &'a str,
  position : usize,
  entry    : u32,
  finished : bool,
\x7d

impl<'a> Lexer<'a> \x7b
  pub fn with_entry(content: &'a str, entry: u32) -> Self \x7b
    Lexer \x7b content, position: 0, entry, finished: false \x7d
  \x7d

  fn next_state(state: u32, c: char) -> Option<u32> \x7b
    let edges = tables::TRANSITIONS[state as usize];
    edges
        .binary_search_by(|&(lo, hi, _)| \x7b
          if hi < c \x7b
            std::cmp::Ordering::Less
          \x7d else if lo > c \x7b
            std::cmp::Ordering::Greater
          \x7d else \x7b
            std::cmp::Ordering::Equal
          \x7d
        \x7d)
        .ok()
        .map(|idx| edges[idx].2)
  \x7d

  fn accepting(state: u32) -> Option<&'static str> \x7b
    tables::ACCEPTING
        .binary_search_by_key(&state, |&(id, _)| id)
        .ok()
        .map(|idx| tables::ACCEPTING[idx].1)
  \x7d

  fn munch(&self, start: usize) -> Result<(usize, &'static str), LexError> \x7b
    let mut state = self.entry;
    let mut active = \"\";
    let mut candidate = None;

    for (offset, c) in self.content[start..].char_indices() \x7b
      match Self::next_state(state, c) \x7b
        Some(next) => \x7b
          state = next;
          if let Some(tag) = Self::accepting(state) \x7b
            if !tag.is_empty() \x7b
              active = tag;
            \x7d
            candidate = Some((start + offset + c.len_utf8(), active));
          \x7d
        \x7d
        None => return candidate.ok_or(LexError::NoMatch \x7b position: start + offset \x7d),
      \x7d
    \x7d

    candidate.ok_or(LexError::UnexpectedEnd \x7b start \x7d)
  \x7d
\x7d

impl<'a> Iterator for Lexer<'a> \x7b
  type Item = Result<Token<'a>, LexError>;

  fn next(&mut self) -> Option<Self::Item> \x7b
    while !self.finished && self.position < self.content.len() \x7b
      let start = self.position;
      let (end, tag) =
          match self.munch(start) \x7b
            Ok(matched) => matched,
            Err(error) => \x7b
              self.finished = true;
              return Some(Err(error));
            \x7d
          \x7d;

      self.position = end;
      let text = &self.content[start..end];
      let tag =
          tables::KEYWORDS
              .iter()
              .find(|&&(word, _)| word == text)
              .map_or(tag, |&(_, keyword)| keyword);

      if let Some(&(_, action)) = tables::USER_DEFS.iter().find(|&&(name, _)| name == tag) \x7b
        action(self.content, &mut self.position);
      \x7d

      if !tables::IGNORE.contains(&tag) \x7b
        return Some(Ok(Token \x7b tag, text, start \x7d));
      \x7d
    \x7d

    self.finished = true;
    None
  \x7d
\x7d
"

end LexerGen.Command
